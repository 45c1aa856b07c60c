import Xnu.Ipc.Grow
import Xnu.Ipc.Right

namespace Xnu.Ipc

/-! `ipc_entry_grow_table` as it runs against other threads. Once the new size
is chosen, the grower marks the space growing, sets the watermarks
`is_low_mod = osize` and `is_high_mod = 0` and drops the lock. It then copies
the old table into the new one without the lock, while other threads go on
changing the old table under the lock, each change noted by
`ipc_entry_modified`. Back under the lock it rescans the window of entries
that changed meanwhile, or, when none did, links the new slots after the end
of the old free list and installs the table.

The new table's reverse hash lives in the table's own `ie_index` and
`ie_dist` fields; it is modelled as the set of pairs (object, index) it maps.
A snapshot of an old entry that another thread writes while it is being read
may be torn: it is then any entry at all. The space dying during the copy and
a failed allocation are left out. -/

/-- `ipc_entry_modified(space, name, entry)`: the watermarks
`is_low_mod` and `is_high_mod` take in the entry's index. -/
def ipcEntryModified (lowMod highMod index : Nat) : Nat × Nat :=
  (if index < lowMod then index else lowMod, if index > highMod then index else highMod)

/-- The object an entry puts in the reverse hash: its object when its type is
`MACH_PORT_TYPE_SEND`. -/
def IpcEntry.sendObject (entry : IpcEntry) : Option Nat :=
  if ieBitsType entry.ieBits = machPortTypeSend then entry.ieObject else none

/-- `ipc_hash_table_delete(table, size, obj, index, entry)` for an entry that
holds a send right. -/
def ipcHashTableDelete (hash : Finset (Nat × Nat)) (entry : IpcEntry) (index : Nat) :
    Finset (Nat × Nat) :=
  match entry.ieObject with
  | some obj => if ieBitsType entry.ieBits = machPortTypeSend then hash.erase (obj, index) else hash
  | none => hash

/-- `ipc_hash_table_insert(table, size, obj, index, entry)` for an entry that
holds a send right. -/
def ipcHashTableInsert (hash : Finset (Nat × Nat)) (entry : IpcEntry) (index : Nat) :
    Finset (Nat × Nat) :=
  match entry.ieObject with
  | some obj => if ieBitsType entry.ieBits = machPortTypeSend then insert (obj, index) hash else hash
  | none => hash

/-- One pass of the copy loop, `entry = &table[i]` taking the snapshot
`osnap`: when the object or the type changed, the reverse hash drops the old
send right and takes the new one. -/
def ipcEntryGrowCopy (table : List IpcEntry) (hash : Finset (Nat × Nat)) (i : Nat)
    (osnap : IpcEntry) : List IpcEntry × Finset (Nat × Nat) :=
  let entry := table.getD i ⟨none, 0, 0⟩
  if entry.ieObject ≠ osnap.ieObject ∨ ieBitsType entry.ieBits ≠ ieBitsType osnap.ieBits then
    let hash := ipcHashTableDelete hash entry i
    let entry := osnap
    (table.set i entry, ipcHashTableInsert hash entry i)
  else (table.set i { entry with ieBits := osnap.ieBits, ieNext := osnap.ieNext }, hash)

/-- Where the grower is. -/
inductive GrowPc where
  /-- The loop `for (i = low_mod; i <= hi_mod; i++)`, about to copy entry `i`. -/
  | scan (lowMod hiMod i : Nat)
  /-- Reading `osnap = otable[i]`; `torn` once another thread wrote entry `i`
  during the read. -/
  | snapshot (lowMod hiMod i : Nat) (torn : Bool)
  /-- Past the walk to the end of the free list, which ended at `freeIndex`,
  and waiting for `is_write_lock`. -/
  | locking (freeIndex : Nat)
  /-- The new table is installed. -/
  | installed
  deriving DecidableEq, Repr

/-- A write to entry `index` tears a snapshot of it in progress. -/
def GrowPc.tear (index : Nat) : GrowPc → GrowPc
  | .snapshot lowMod hiMod i torn => .snapshot lowMod hiMod i (torn || i == index)
  | pc => pc

/-- The space, shared with the other threads, and the grower's new table,
its reverse hash and its place. -/
structure GrowState where
  space : IpcSpace
  isLowMod : Nat
  isHighMod : Nat
  table : List IpcEntry
  hash : Finset (Nat × Nat)
  pc : GrowPc

/-- The state when the grower drops the lock to copy: the new table of `size`
entries with `ipc_space_rand_freelist(space, table, osize, size)` done and the
old part cleared, and the whole old table to scan. -/
def ipcEntryGrowStart (which : Nat → Bool) (space : IpcSpace) (size : Nat) : GrowState :=
  let osize := space.isTable.length
  { space, isLowMod := osize, isHighMod := 0,
    table := ipcSpaceRandFreelist which (List.replicate size ⟨none, 0, 0⟩) osize size,
    hash := ∅, pc := .scan 0 (osize - 1) 0 }

/-- Another thread, holding the lock, writes entry `index` of the old table
and the space's counters, and calls `ipc_entry_modified` for the index. -/
def GrowState.modify (s : GrowState) (index : Nat) (entry : IpcEntry) (free hashed : Nat) :
    GrowState :=
  { s with
    space :=
      { s.space with
        isTable := s.space.isTable.set index entry, isTableFree := free, isTableHashed := hashed },
    isLowMod := (ipcEntryModified s.isLowMod s.isHighMod index).1,
    isHighMod := (ipcEntryModified s.isLowMod s.isHighMod index).2,
    pc := s.pc.tear index }

/-- The end of a copy pass: `table[0].ie_next = otable[0].ie_next` rebases the
free list, and the walk finds its end. -/
def ipcEntryGrowRebase (osize : Nat) (s : GrowState) : GrowState :=
  let table := s.table.modify 0 fun e => { e with ieNext := (s.space.isTable.getD 0 ⟨none, 0, 0⟩).ieNext }
  { s with table, pc := .locking (ipcEntryGrowFreeEnd table osize osize 0) }

/-- The grower holds the lock again: a change made meanwhile sends it back to
rescan the window `[is_low_mod, is_high_mod]` and resets the watermarks;
otherwise it links the new slots after `free_index` and installs the table. -/
def ipcEntryGrowRelock (osize size next : Nat) (s : GrowState) (freeIndex : Nat) : GrowState :=
  if s.isLowMod < osize then
    { s with isLowMod := osize, isHighMod := 0, pc := .scan s.isLowMod s.isHighMod s.isLowMod }
  else
    let table := s.table.modify freeIndex fun e => { e with ieNext := osize }
    { s with
      space :=
        { s.space with
          isTable := table, isTableFree := s.space.isTableFree + (size - osize), isTableNext := next + 1 },
      table, pc := .installed }

/-- The grower's own steps, growing an old table of `osize` entries to
`ipc_table_entries[next]`, of `size` entries. -/
inductive GrowerStep (osize size next : Nat) : GrowState → GrowState → Prop
  /-- `struct ipc_entry osnap = otable[i]` begins. -/
  | read {s : GrowState} {lowMod hiMod i : Nat} :
      s.pc = .scan lowMod hiMod i → i ≤ hiMod →
      GrowerStep osize size next s { s with pc := .snapshot lowMod hiMod i false }
  /-- The snapshot is taken and copied; unless a write tore it, it is the old
  entry as it stands. -/
  | copy {s : GrowState} {lowMod hiMod i : Nat} {torn : Bool} (osnap : IpcEntry) :
      s.pc = .snapshot lowMod hiMod i torn →
      (torn = false → osnap = s.space.isTable.getD i ⟨none, 0, 0⟩) →
      GrowerStep osize size next s
        { s with
          table := (ipcEntryGrowCopy s.table s.hash i osnap).1,
          hash := (ipcEntryGrowCopy s.table s.hash i osnap).2, pc := .scan lowMod hiMod (i + 1) }
  /-- The loop is done. -/
  | rebase {s : GrowState} {lowMod hiMod i : Nat} :
      s.pc = .scan lowMod hiMod i → hiMod < i → GrowerStep osize size next s (ipcEntryGrowRebase osize s)
  | relock {s : GrowState} {freeIndex : Nat} :
      s.pc = .locking freeIndex →
      GrowerStep osize size next s (ipcEntryGrowRelock osize size next s freeIndex)

/-- A step of the grower, or of another thread writing an entry of the old
table under the lock before the new one is installed. -/
inductive GrowStep (osize size next : Nat) : GrowState → GrowState → Prop
  | grower {s s' : GrowState} : GrowerStep osize size next s s' → GrowStep osize size next s s'
  | other {s : GrowState} {index : Nat} (entry : IpcEntry) (free hashed : Nat) :
      s.pc ≠ .installed → index < osize → GrowStep osize size next s (s.modify index entry free hashed)

/-- The states a growth of `space` to `ipc_table_entries[next]`, of `size`
entries, passes through, in any interleaving with other threads. -/
def GrowReach (which : Nat → Bool) (space : IpcSpace) (size next : Nat) (s : GrowState) : Prop :=
  Relation.ReflTransGen (GrowStep space.isTable.length size next) (ipcEntryGrowStart which space size) s

end Xnu.Ipc
