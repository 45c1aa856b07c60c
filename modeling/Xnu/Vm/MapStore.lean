import Mathlib

namespace Xnu.Vm

/-! The entry store of a `vm_map` (`vm_map_store_ll.c`, `vm_map_store_rb.c`):
the entries in address order behind the map header, linked through
`vme_next` and `vme_prev`, and the red-black tree over the same entries. The
tree's colours play no part in a lookup and are left out, and so is the hint
a lookup saves. Addresses are `vm_map_offset_t` values, only compared. -/

/-- A pointer to a `vm_map_entry`: the map header, or the `i`-th entry of the
list. -/
inductive VmEntryRef where
  | header
  | entry (i : Nat)
  deriving DecidableEq, Repr

/-- The bounds of an entry, `vme_start` and `vme_end`. -/
structure VmMapEntry where
  vmeStart : Nat
  vmeEnd : Nat
  deriving DecidableEq, Repr

/-- The red-black tree of `struct vm_map_store`s; a node holds the index of
the entry it is embedded in. -/
inductive RbStore where
  | nil
  | node (left : RbStore) (entry : Nat) (right : RbStore)
  deriving DecidableEq, Repr

/-- The entries of a tree, left to right. -/
def RbStore.inorder : RbStore → List Nat
  | .nil => []
  | .node left entry right => left.inorder ++ entry :: right.inorder

/-- The fields of a `vm_map` the lookups read: the list, the header's bounds
`min_offset` and `max_offset`, the tree and the hint. -/
structure VmMap where
  entries : List VmMapEntry
  minOffset : Nat
  maxOffset : Nat
  rbHead : RbStore
  hint : VmEntryRef
  deriving DecidableEq, Repr

namespace VmMap

/-- The entry a pointer points to; the header carries the map's bounds. -/
def entryAt (map : VmMap) : VmEntryRef → VmMapEntry
  | .header => ⟨map.minOffset, map.maxOffset⟩
  | .entry i => map.entries.getD i ⟨0, 0⟩

/-- `vme_next`: the list is circular through the header. -/
def vmeNext (map : VmMap) : VmEntryRef → VmEntryRef
  | .header => if map.entries.length = 0 then .header else .entry 0
  | .entry i => if i + 1 < map.entries.length then .entry (i + 1) else .header

/-- `vme_prev`. -/
def vmePrev (map : VmMap) : VmEntryRef → VmEntryRef
  | .header => if map.entries.length = 0 then .header else .entry (map.entries.length - 1)
  | .entry i => if i = 0 then .header else .entry (i - 1)

end VmMap

/-! `vm_map_store_lookup_entry_ll`. -/

/-- The `while (cur != last)` loop of `vm_map_store_lookup_entry_ll`; `none`
is a scan longer than `fuel`. -/
def lookupLlScan (map : VmMap) (address : Nat) (last : VmEntryRef) :
    Nat → VmEntryRef → Option (Bool × VmEntryRef)
  | 0, _ => none
  | fuel + 1, cur =>
    if cur = last then some (false, map.vmePrev cur)
    else if (map.entryAt cur).vmeEnd > address then
      if address ≥ (map.entryAt cur).vmeStart then some (true, cur) else some (false, map.vmePrev cur)
    else lookupLlScan map address last fuel (map.vmeNext cur)

/-- `vm_map_store_lookup_entry_ll(map, address, &entry)`: from the hint to the
end of the list when the address is at or past the hint, otherwise from the
first entry to the hint inclusively. -/
def vmMapStoreLookupEntryLl (map : VmMap) (address : Nat) : Option (Bool × VmEntryRef) :=
  let cur := if map.hint = .header then map.vmeNext .header else map.hint
  if address ≥ (map.entryAt cur).vmeStart then
    let last := VmEntryRef.header
    if cur ≠ last ∧ (map.entryAt cur).vmeEnd > address then some (true, cur)
    else lookupLlScan map address last (map.entries.length + 1) cur
  else
    let last := map.vmeNext cur
    lookupLlScan map address last (map.entries.length + 1) (map.vmeNext .header)

/-! `vm_map_store_lookup_entry_rb`. -/

/-- The descent of `vm_map_store_lookup_entry_rb`; `prev` is the last entry it
went right at, `none` for `VM_MAP_ENTRY_NULL`. -/
def lookupRbLoop (map : VmMap) (address : Nat) : RbStore → Option VmEntryRef → Bool × VmEntryRef
  | .nil, prev => (false, prev.getD .header)
  | .node left i right, prev =>
    let cur := map.entryAt (.entry i)
    if address ≥ cur.vmeStart then
      if address < cur.vmeEnd then (true, .entry i)
      else lookupRbLoop map address right (some (.entry i))
    else lookupRbLoop map address left prev

/-- `vm_map_store_lookup_entry_rb(map, address, &entry)`. -/
def vmMapStoreLookupEntryRb (map : VmMap) (address : Nat) : Bool × VmEntryRef :=
  lookupRbLoop map address map.rbHead none

end Xnu.Vm
