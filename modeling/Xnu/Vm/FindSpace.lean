import Mathlib

namespace Xnu.Vm

/-! `vm_map_find_space` of `vm_map.c`, on a map whose holes are kept in
`map->holes_list`. Addresses are the 64-bit `vm_map_offset_t`s the search adds
and compares, so a sum past `2^64` wraps as it does in the source. The
`disable_vmentry_reuse` and `first_free` searches of maps without a hole list,
the panic on a hole that starts inside an entry, and the fields the new entry
is given are left out. -/

/-- The bounds of a `vm_map_entry`, or of a hole of `map->holes_list`. -/
structure VmRange where
  vmeStart : UInt64
  vmeEnd : UInt64
  deriving DecidableEq, Repr

/-- The fields of a `vm_map` that `vm_map_find_space` reads: the entries and the
holes, each in address order, the bounds, and `VM_MAP_PAGE_SIZE(map)`. -/
structure VmMapSpace where
  entries : List VmRange
  holes : List VmRange
  minOffset : UInt64
  maxOffset : UInt64
  pageSize : UInt64
  deriving DecidableEq, Repr

/-- What `vm_map_find_space` returns: `KERN_SUCCESS` with the bounds of the new
entry, `KERN_INVALID_ARGUMENT` or `KERN_NO_SPACE`. -/
inductive FindSpaceResult where
  | success (vmeStart vmeEnd : UInt64)
  | invalidArgument
  | noSpace
  deriving DecidableEq, Repr

/-- The search loop over the hole list, from its head: the start of each hole,
past a front guard page when `guardBefore`, rounded up with `mask`; `finish` is
the source's `end`. The search stops at the first hole that holds `size` bytes
from there, and gives up past `max_offset`, on a wrap, or when it comes back
round to the head. -/
def findSpaceHoles (maxOffset pageSize size mask : UInt64) (guardBefore : Bool) :
    List VmRange → Option (UInt64 × UInt64)
  | [] => none
  | entry :: rest =>
    let start := if guardBefore then entry.vmeStart + pageSize else entry.vmeStart
    let finish := (start + mask) &&& ~~~mask
    if finish < start then none
    else
      let start := finish
      let finish := finish + size
      if finish > maxOffset ∨ finish < start then none
      else if entry.vmeEnd ≥ finish then some (start, finish)
      else findSpaceHoles maxOffset pageSize size mask guardBefore rest

/-- The loop of `vm_map_store_find_last_free_ll`, from the end of the list
backwards: `entry` is the current entry (`none` for the map header), `finish`
its start, and `before` the entries before it, nearest first. It steps back
over entries that end where the current one starts or past `max_offset`. -/
def findLastFreeLoop (maxOffset : UInt64) :
    Option VmRange → UInt64 → List VmRange → Option VmRange × List VmRange
  | entry, _, [] => (entry, [])
  | entry, finish, prev :: before =>
    if prev.vmeEnd = finish ∨ prev.vmeEnd > maxOffset then
      findLastFreeLoop maxOffset (some prev) prev.vmeStart before
    else (entry, prev :: before)

/-- `vm_map_store_find_last_free_ll(map, &entry)`: the entry after the last
hole, with the entries before it, or `none` (`NULL`) when the map is full. -/
def vmMapStoreFindLastFreeLl (map : VmMapSpace) : Option (Option VmRange × List VmRange) :=
  match findLastFreeLoop map.maxOffset none map.maxOffset map.entries.reverse with
  | (some entry, before) => if entry.vmeStart = map.minOffset then none else some (some entry, before)
  | (none, before) => some (none, before)

/-- The backward search of `vm_map_find_space` with `VM_MAP_FIND_LAST_FREE`:
the `size` bytes that end at `finish`, the start of the current entry, unless
they run below `min_offset` or wrap; they fit when the entry before ends at or
below their start, or there is none. -/
def findSpaceLastFree (minOffset size finish : UInt64) (before : List VmRange) :
    Option (UInt64 × UInt64) :=
  let start := finish - size
  if start < minOffset ∨ finish < start then none
  else
    match before with
    | [] => some (start, finish)
    | prev :: rest =>
      if prev.vmeEnd ≤ start then some (start, finish)
      else findSpaceLastFree minOffset size prev.vmeStart rest

/-- `vm_map_find_space(map, &address, size, mask, flags, vmk_flags, tag,
&entry)`: `lastFree` is `VM_MAP_FIND_LAST_FREE`, `guardBefore` and
`guardAfter` are `vmkf_guard_before` and `vmkf_guard_after`. A back guard page
is added to `size`; a front guard page is skipped in the search and taken back
into the entry at the end. -/
def vmMapFindSpace (map : VmMapSpace) (size mask : UInt64) (lastFree guardBefore guardAfter : Bool) :
    FindSpaceResult :=
  if size = 0 then .invalidArgument
  else if lastFree then
    match vmMapStoreFindLastFreeLl map with
    | none => .noSpace
    | some (entry, before) =>
      let finish := match entry with
        | none => map.maxOffset
        | some entry => entry.vmeStart
      match findSpaceLastFree map.minOffset size finish before with
      | none => .noSpace
      | some (start, finish) => .success start finish
  else
    let size := if guardAfter then size + map.pageSize else size
    match findSpaceHoles map.maxOffset map.pageSize size mask guardBefore map.holes with
    | none => .noSpace
    | some (start, finish) =>
      let start := if guardBefore then start - map.pageSize else start
      .success start finish

end Xnu.Vm
