import Mathlib

namespace Xnu.Ipc

/-! The entry table of an IPC space (`ipc_entry.c`): the entries, the free
list threaded through `ie_next`, and the operations that take entries off it,
put them back and grow the table. The table sizes `its` are the
`ipc_table_entries[].its_size` that `ipc_table_init` fills in, and `which k`
is the `k`-th bit `random_bool_gen_bits` draws for `ipc_space_rand_freelist`. -/

def ieBitsTypeMask : UInt32 := 0x001f0000
def ieBitsGenMask : UInt32 := 0xff000000
def ieBitsGenOne : UInt32 := 0x04000000
def ieBitsRollPos : UInt32 := 22
def ieBitsRollBits : UInt32 := 2
def ieBitsRollMask : UInt32 := ((1 <<< ieBitsRollBits) - 1) <<< ieBitsRollPos

def machPortTypeNone : UInt32 := 0

def ieBitsType (bits : UInt32) : UInt32 := bits &&& ieBitsTypeMask

def ieBitsGen (bits : UInt32) : UInt32 := bits &&& ieBitsGenMask

def ieBitsRoll (bits : UInt32) : UInt32 := ((bits &&& ieBitsRollMask) <<< 8) ^^^ ieBitsGenMask

def ipcEntryNewRollpoint (rollbits : UInt32) : UInt32 :=
  let rollbits := (rollbits <<< ieBitsRollPos) &&& ieBitsRollMask
  (ieBitsGenMask + ieBitsGenOne) ||| rollbits

def ipcEntryNewGen (oldgen : UInt32) : UInt32 :=
  let sum := (oldgen + ieBitsGenOne) &&& ieBitsGenMask
  let roll := oldgen &&& ieBitsRollMask
  (sum % ieBitsRoll oldgen) ||| roll

def ipcEntryGenRolled (oldgen newgen : UInt32) : Bool :=
  (oldgen &&& ieBitsGenMask) > (newgen &&& ieBitsGenMask)

def machPortIndex (name : UInt32) : UInt32 := name >>> 8

def machPortGen (name : UInt32) : UInt32 := (name &&& 0xff) <<< 24

def machPortMake (index gen : UInt32) : UInt32 := (index <<< 8) ||| (gen >>> 24)

def machPortDead : UInt32 := ~~~0

def machPortValid (name : UInt32) : Bool := name != 0 && name != machPortDead

/-- `struct ipc_entry`, without the reverse-hash fields `ie_dist` and
`ie_index`. `ieNext` is the `ie_next`/`ie_request` union. -/
structure IpcEntry where
  ieObject : Option Nat
  ieBits : UInt32
  ieNext : Nat
  deriving DecidableEq, Repr

/-- The fields of `struct ipc_space` these routines use; `is_table_size` is
the length of the table and `isTableNext` indexes `ipc_table_entries`. -/
structure IpcSpace where
  isTable : List IpcEntry
  isTableFree : Nat
  isTableHashed : Nat
  isTableNext : Nat
  deriving DecidableEq, Repr

inductive KernReturn where
  | success
  | noSpace
  | failure
  deriving DecidableEq, Repr

/-- `ipc_table_max_entries()`: the size of the last table. -/
def ipcTableMaxEntries (its : List Nat) : Nat := its.getLastD 0

/-- The link of slot `i`: its `ie_next`, `none` past the table. -/
def IpcEntry.link (table : List IpcEntry) (i : Nat) : Option Nat :=
  table[i]?.map IpcEntry.ieNext

/-! Taking entries off the free list. -/

/-- The `for` loop of `ipc_entries_hold`: `n` more links from `nextFree`
without meeting `0`. `none` is a read past the table. -/
def ipcEntriesHoldWalk (table : List IpcEntry) : Nat → Nat → Option Bool
  | 0, _ => some true
  | n + 1, nextFree =>
    match table[nextFree]? with
    | none => none
    | some entry => if entry.ieNext = 0 then some false else ipcEntriesHoldWalk table n entry.ieNext

/-- `ipc_entries_hold(space, entries_needed)`: `true` is `KERN_SUCCESS`. -/
def ipcEntriesHold (space : IpcSpace) (entriesNeeded : Nat) : Option Bool :=
  if space.isTableHashed + entriesNeeded > space.isTable.length * 7 / 8 then some false
  else ipcEntriesHoldWalk space.isTable entriesNeeded 0

/-- `ipc_entry_claim`: unlink the first free entry, give it the next
generation (a new rollover point `rollpoint` when the count wraps), and
return its name and its index. -/
def ipcEntryClaim (space : IpcSpace) (rollpoint : UInt32) : Option (IpcSpace × UInt32 × Nat) := do
  let head ← space.isTable[0]?
  let firstFree := head.ieNext
  let entry ← space.isTable[firstFree]?
  let table := space.isTable.set 0 { head with ieNext := entry.ieNext }
  let gen := ipcEntryNewGen entry.ieBits
  let gen := if ipcEntryGenRolled entry.ieBits gen then ipcEntryNewRollpoint rollpoint else gen
  let table := table.set firstFree { entry with ieBits := gen, ieNext := 0 }
  pure ({ space with isTable := table, isTableFree := space.isTableFree - 1 },
    machPortMake firstFree.toUInt32 gen, firstFree)

/-- What a caller does with an entry it claimed or looked up before it
unlocks the space: it stores bits, an object and a request in it. -/
def IpcSpace.writeEntry (space : IpcSpace) (index : Nat) (entry : IpcEntry) : IpcSpace :=
  { space with isTable := space.isTable.set index entry }

/-- `ipc_entry_get`: a claim behind a hold of one entry; `none` inside is
`KERN_NO_SPACE`. -/
def ipcEntryGet (space : IpcSpace) (rollpoint : UInt32) :
    Option (Option (IpcSpace × UInt32 × Nat)) :=
  match ipcEntriesHold space 1 with
  | none => none
  | some false => some none
  | some true => (ipcEntryClaim space rollpoint).map some

/-- A caller's run of `ipc_entry_claim` behind an `ipc_entries_hold`: each
claimed entry gets the caller's entry, of a type other than NONE, before the
next claim. It returns the names and the indices of the entries claimed. -/
def ipcEntryClaimWrites (space : IpcSpace) :
    List (UInt32 × IpcEntry) → Option (IpcSpace × List (UInt32 × Nat))
  | [] => some (space, [])
  | (rollpoint, entry) :: rest =>
    match ipcEntryClaim space rollpoint with
    | none => none
    | some (claimed, name, index) =>
      (ipcEntryClaimWrites (claimed.writeEntry index entry) rest).map fun (final, got) =>
        (final, (name, index) :: got)

/-- The predecessor search of `ipc_entry_alloc_name`: from `freeIndex`, the
slot whose `ie_next` is `index`. It stops only by finding one; `none` is the
search running past `fuel` slots or past the table. -/
def ipcEntryFindPred (table : List IpcEntry) (index : Nat) : Nat → Nat → Option Nat
  | 0, _ => none
  | fuel + 1, freeIndex =>
    match table[freeIndex]? with
    | none => none
    | some entry =>
      if entry.ieNext = index then some freeIndex
      else ipcEntryFindPred table index fuel entry.ieNext

/-- Case 4 of `ipc_entry_alloc_name`: rip the free entry `index` out of the
free list and give it generation `gen`. -/
def ipcEntryAllocFree (space : IpcSpace) (index : Nat) (gen : UInt32) : Option IpcSpace := do
  let freeIndex ← ipcEntryFindPred space.isTable index space.isTable.length 0
  let pred ← space.isTable[freeIndex]?
  let entry ← space.isTable[index]?
  let table := space.isTable.set freeIndex { pred with ieNext := entry.ieNext }
  let table := table.set index { entry with ieBits := gen, ieNext := 0 }
  pure { space with isTable := table, isTableFree := space.isTableFree - 1 }

/-- The body of the `for (;;)` of `ipc_entry_alloc_name` for an index inside
the table: the reserved entry, an entry in use for this or another name, or a
free entry. -/
def ipcEntryAllocNameInTable (space : IpcSpace) (index : Nat) (gen : UInt32) :
    Option (KernReturn × IpcSpace) :=
  match space.isTable[index]? with
  | none => none
  | some entry =>
    if index = 0 then some (.failure, space)
    else if ieBitsType entry.ieBits ≠ 0 then
      if ieBitsGen entry.ieBits = gen then some (.success, space) else some (.failure, space)
    else (ipcEntryAllocFree space index gen).map fun space => (.success, space)

/-! Returning an entry and growing the table. -/

/-- `ipc_entry_dealloc(space, name, entry)` with `entry` the slot `entryIndex`:
the entry keeps its generation and rollover bits and goes first on the free
list. `none` is the panic on a pending request. -/
def ipcEntryDealloc (space : IpcSpace) (name : UInt32) (entryIndex : Nat) : Option IpcSpace :=
  match space.isTable[entryIndex]? with
  | none => none
  | some entry =>
    if entry.ieNext ≠ 0 then none
    else
      let index := (machPortIndex name).toNat
      if index < space.isTable.length ∧ entryIndex = index then
        match space.isTable[0]? with
        | none => none
        | some head =>
          let table := space.isTable.set index
            { entry with ieBits := entry.ieBits &&& (ieBitsGenMask ||| ieBitsRollMask),
                         ieNext := head.ieNext }
          let table := table.modify 0 fun head => { head with ieNext := index }
          some { space with isTable := table, isTableFree := space.isTableFree + 1 }
      else some space

/-- The fresh entry `ipc_space_rand_freelist` writes. -/
def IpcEntry.free (next : Nat) : IpcEntry := ⟨none, ieBitsGenMask, next⟩

/-- The `while (bottom <= top)` loop of `ipc_space_rand_freelist`: `curr`
takes the next slot from either end of `[bottom, top]`, as bit `k` says, then
the last slot ends the list. -/
def ipcSpaceRandFreelistLoop (which : Nat → Bool) (table : List IpcEntry) :
    Nat → Nat → Nat → Nat → Nat → List IpcEntry
  | 0, _, curr, _, _ => table.set curr (IpcEntry.free 0)
  | fuel + 1, k, curr, bottom, top =>
    if bottom ≤ top then
      if which k then
        ipcSpaceRandFreelistLoop which (table.set curr (IpcEntry.free top)) fuel (k + 1) top bottom
          (top - 1)
      else
        ipcSpaceRandFreelistLoop which (table.set curr (IpcEntry.free bottom)) fuel (k + 1) bottom
          (bottom + 1) top
    else table.set curr (IpcEntry.free 0)

/-- `ipc_space_rand_freelist(space, table, bottom, top)`: the slots
`[bottom, top)` linked from `bottom` in a random order; at the start of a
table, slot 0 gets generation 0. -/
def ipcSpaceRandFreelist (which : Nat → Bool) (table : List IpcEntry) (bottom top : Nat) :
    List IpcEntry :=
  let table := ipcSpaceRandFreelistLoop which table (top - bottom) 0 bottom (bottom + 1) (top - 1)
  if bottom = 0 then table.modify 0 fun e => { e with ieBits := 0 } else table

/-- The walk of `ipc_entry_grow_table` to the end of the old free list: it
follows free entries while their link stays inside the old table. -/
def ipcEntryGrowFreeEnd (table : List IpcEntry) (osize : Nat) : Nat → Nat → Nat
  | 0, freeIndex => freeIndex
  | sanity + 1, freeIndex =>
    match table[freeIndex]? with
    | none => freeIndex
    | some entry =>
      if entry.ieObject.isSome then freeIndex
      else if entry.ieNext = 0 ∨ entry.ieNext ≥ osize then freeIndex
      else ipcEntryGrowFreeEnd table osize sanity entry.ieNext

/-- The `while` loop of `ipc_entry_grow_table` that looks for a size holding
`targetSize` entries: from `ipc_table_entries[next]` on, it stops at a size
large enough, or at two equal sizes in a row (the last table, `KERN_NO_SPACE`,
here `some none`). `none` is a read past the array. -/
def ipcTableSearch (its : List Nat) (targetSize : Nat) : Nat → Nat → Nat → Option (Option Nat)
  | 0, _, _ => none
  | fuel + 1, psize, next =>
    match its[next]? with
    | none => none
    | some size =>
      if psize = size then some none
      else if targetSize > size then ipcTableSearch its targetSize fuel size (next + 1)
      else some (some next)

/-- The growth itself, to `ipc_table_entries[next]`: the new slots are linked
in a random order and hung at the end of the old free list, which is found
by following free entries while their link stays inside the old table. -/
def ipcEntryGrowTo (its : List Nat) (which : Nat → Bool) (space : IpcSpace) (next : Nat) :
    Option (KernReturn × IpcSpace) :=
  let osize := space.isTable.length
  match its[next]? with
  | none => none
  | some size =>
    if osize = size then some (.noSpace, space)
    else
      let table := ipcSpaceRandFreelist which
        (space.isTable ++ List.replicate (size - osize) ⟨none, 0, 0⟩) osize size
      let freeIndex := ipcEntryGrowFreeEnd table osize osize 0
      let table := table.modify freeIndex fun e => { e with ieNext := osize }
      let isTableFree := space.isTableFree + (size - osize)
      some (.success, { space with isTable := table, isTableFree, isTableNext := next + 1 })

/-- `ipc_entry_grow_table(space, target_size)` on a space nobody else grows
and with memory to spare, so that the copy of the old table needs no rescan.
`targetSize = none` is `ITS_SIZE_NONE`: the next size in `its`. -/
def ipcEntryGrowTable (its : List Nat) (which : Nat → Bool) (space : IpcSpace)
    (targetSize : Option Nat) : Option (KernReturn × IpcSpace) :=
  match targetSize with
  | none => ipcEntryGrowTo its which space space.isTableNext
  | some target =>
    if target ≤ space.isTable.length then some (.success, space)
    else
      match ipcTableSearch its target its.length space.isTable.length space.isTableNext with
      | none => none
      | some none => some (.noSpace, space)
      | some (some next) => ipcEntryGrowTo its which space next

/-- `ipc_entry_alloc_name(space, name, &entry)`: an index past
`ipc_table_max_entries()` is refused at once; an index past the table grows
it to hold `index + 1` entries and looks again. The loop passes at most
twice. -/
def ipcEntryAllocNameLoop (its : List Nat) (which : Nat → Bool) (index : Nat) (gen : UInt32) :
    Nat → IpcSpace → Option (KernReturn × IpcSpace)
  | 0, _ => none
  | fuel + 1, space =>
    if index < space.isTable.length then ipcEntryAllocNameInTable space index gen
    else
      match ipcEntryGrowTable its which space (some (index + 1)) with
      | none => none
      | some (.success, space) => ipcEntryAllocNameLoop its which index gen fuel space
      | some (kr, space) => some (kr, space)

def ipcEntryAllocName (its : List Nat) (which : Nat → Bool) (space : IpcSpace) (name : UInt32) :
    Option (KernReturn × IpcSpace) :=
  let index := (machPortIndex name).toNat
  if index > ipcTableMaxEntries its then some (.noSpace, space)
  else ipcEntryAllocNameLoop its which index (machPortGen name) 2 space

/-- `ipc_space_create(&ipc_table_entries[initial], ...)`. -/
def ipcSpaceCreate (its : List Nat) (which : Nat → Bool) (initial : Nat) : Option IpcSpace :=
  match its[initial]? with
  | none => none
  | some size =>
    some ⟨ipcSpaceRandFreelist which (List.replicate size ⟨none, 0, 0⟩) 0 size, size - 1, 0,
      initial + 1⟩

end Xnu.Ipc
