import Xnu.Ipc.Space

namespace Xnu.Ipc

/-! Runs of the entry-table operations on one space, from `ipc_space_create`:
what a caller of `ipc_entry.c` may do next, and the invariant every reachable
space keeps. -/

/-- One operation on the space, as a caller makes it: an allocating operation
is followed by the caller's write of an entry of a type other than NONE in the
slot it got, a `dealloc` is of a slot in use whose object is gone, and a slot
in use may be rewritten with another entry in use. -/
inductive IpcEntryStep (its : List Nat) : IpcSpace → IpcSpace → Prop
  | get {space claimed : IpcSpace} {name : UInt32} {index : Nat} (rollpoint : UInt32) (entry : IpcEntry) :
      ipcEntryGet space rollpoint = some (some (claimed, name, index)) → ieBitsType entry.ieBits ≠ 0 →
      IpcEntryStep its space (claimed.writeEntry index entry)
  | holdClaims {space final : IpcSpace} {got : List (UInt32 × Nat)} (n : Nat)
      (writes : List (UInt32 × IpcEntry)) :
      ipcEntriesHold space n = some true → writes.length = n →
      (∀ w ∈ writes, ieBitsType w.2.ieBits ≠ 0) → ipcEntryClaimWrites space writes = some (final, got) →
      IpcEntryStep its space final
  | allocName {space allocated : IpcSpace} (which : Nat → Bool) (name : UInt32) (entry : IpcEntry) :
      ipcEntryAllocName its which space name = some (.success, allocated) → ieBitsType entry.ieBits ≠ 0 →
      IpcEntryStep its space (allocated.writeEntry (machPortIndex name).toNat entry)
  | allocNameRefused {space space' : IpcSpace} {kr : KernReturn} (which : Nat → Bool) (name : UInt32) :
      ipcEntryAllocName its which space name = some (kr, space') → kr ≠ .success →
      IpcEntryStep its space space'
  | dealloc {space space' : IpcSpace} {e : IpcEntry} (name : UInt32) (entryIndex : Nat) :
      space.isTable[entryIndex]? = some e → ieBitsType e.ieBits ≠ 0 → e.ieObject = none →
      ipcEntryDealloc space name entryIndex = some space' → IpcEntryStep its space space'
  | grow {space space' : IpcSpace} {kr : KernReturn} (which : Nat → Bool) (target : Option Nat) :
      ipcEntryGrowTable its which space target = some (kr, space') → IpcEntryStep its space space'
  | update {space : IpcSpace} {e : IpcEntry} (index : Nat) (entry : IpcEntry) :
      space.isTable[index]? = some e → ieBitsType e.ieBits ≠ 0 → ieBitsType entry.ieBits ≠ 0 →
      IpcEntryStep its space (space.writeEntry index entry)

/-- The spaces reachable from `ipc_space_create` by entry-table operations. -/
inductive IpcSpaceReach (its : List Nat) : IpcSpace → Prop
  | create {space : IpcSpace} (which : Nat → Bool) (initial : Nat) :
      initial + 1 < its.length → ipcSpaceCreate its which initial = some space → IpcSpaceReach its space
  | step {space space' : IpcSpace} : IpcSpaceReach its space → IpcEntryStep its space space' →
      IpcSpaceReach its space'

section Steps

variable {its : List Nat} {space : IpcSpace} {free : List Nat}

theorem IpcTableSizes.pos (sizes : IpcTableSizes its) {i a : Nat} (found : its[i]? = some a) : 0 < a := by
  obtain ⟨first, atZero⟩ : ∃ first, its[0]? = some first :=
    ⟨_, List.getElem?_eq_getElem (by have := sizes.two; omega)⟩
  have firstPos := sizes.first first atZero
  by_cases zero : i = 0
  · subst zero
    rw [atZero, Option.some.injEq] at found
    omega
  · by_cases notLast : i + 1 < its.length
    · have := sizes.increasing 0 i first a (by omega) notLast atZero found
      omega
    · -- The last size repeats the one before it.
      have beforeLast := sizes.last
      have inside : i < its.length := (List.getElem?_eq_some_iff.mp found).1
      rw [show its.length - 1 = i by omega, found] at beforeLast
      by_cases second : its.length - 2 = 0
      · rw [second, atZero, Option.some.injEq] at beforeLast
        omega
      · have := sizes.increasing 0 (its.length - 2) first a (by omega) (by omega) atZero beforeLast
        omega

/-- `ipc_space_create` from a size short of the last makes a valid space. -/
theorem ipcSpaceCreate_valid (sizes : IpcTableSizes its) (which : Nat → Bool) {initial : Nat}
    (notLast : initial + 1 < its.length) (create : ipcSpaceCreate its which initial = some space) :
    ∃ free, space.Valid its free := by
  obtain ⟨size, found⟩ : ∃ size, its[initial]? = some size := ⟨_, List.getElem?_eq_getElem (by omega)⟩
  obtain ⟨created, free, run, inv, -, length, -, next⟩ := ipcSpaceCreate_spec which found (sizes.pos found)
  rw [create, Option.some.injEq] at run
  subst run
  exact ⟨free, ⟨by omega, by omega, by rw [next, Nat.add_sub_cancel, found, length]⟩, inv⟩

/-- A claim from a non-empty free list, and the caller's write of an entry in
use there. -/
theorem IpcSpace.Valid.claim_write (valid : space.Valid its free) {rollpoint name : UInt32} {index : Nat}
    {claimed : IpcSpace} (claim : ipcEntryClaim space rollpoint = some (claimed, name, index))
    (nonempty : 0 < free.length) {entry : IpcEntry} (typed : ieBitsType entry.ieBits ≠ 0) :
    ∃ free', (claimed.writeEntry index entry).Valid its free' := by
  obtain ⟨j, l, rfl⟩ : ∃ j l, free = j :: l := by
    cases free with
    | nil => simp at nonempty
    | cons j l => exact ⟨j, l, rfl⟩
  obtain ⟨claimed', gen, run, taken, same⟩ := ipcEntryClaim_spec valid.freeList rollpoint
  rw [claim, Option.some.injEq, Prod.mk.injEq, Prod.mk.injEq] at run
  obtain ⟨rfl, -, rfl⟩ := run
  exact ⟨l, (valid.sized.of_sameSize same).of_sameSize (claimed.sameSize_writeEntry _ entry),
    taken.written entry typed⟩

/-- What `ipc_entry_alloc_name` returns on a valid space: the space unchanged,
the slot in use for the name when it succeeds so, or a slot taken off the free
list. -/
theorem IpcSpace.Valid.allocName_cases (sizes : IpcTableSizes its) (valid : space.Valid its free)
    {which : Nat → Bool} {name : UInt32} {kr : KernReturn} {space' : IpcSpace}
    (alloc : ipcEntryAllocName its which space name = some (kr, space')) :
    space' = space ∧ (kr = .success →
        ∃ e, space.isTable[(machPortIndex name).toNat]? = some e ∧ ieBitsType e.ieBits ≠ 0) ∨
      kr = .success ∧ space'.Sized its ∧ ∃ free', space'.TakenOff (machPortIndex name).toNat (machPortGen name) free' := by
  obtain ⟨atMax, atZero, inUse, taken⟩ := valid.allocName_spec sizes which
    (show (machPortIndex name).toNat = (machPortIndex name).toNat from rfl)
  by_cases small : (machPortIndex name).toNat < ipcTableMaxEntries its
  · by_cases used : ∃ e, space.isTable[(machPortIndex name).toNat]? = some e ∧ ieBitsType e.ieBits ≠ 0
    · obtain ⟨e, found, typed⟩ := used
      rw [inUse e found typed, Option.some.injEq, Prod.mk.injEq] at alloc
      exact .inl ⟨alloc.2.symm, fun _ => ⟨e, found, typed⟩⟩
    · by_cases zero : (machPortIndex name).toNat = 0
      · rw [atZero zero, Option.some.injEq, Prod.mk.injEq] at alloc
        exact .inl ⟨alloc.2.symm, fun success => by rw [← alloc.1] at success; cases success⟩
      · have none : ∀ e, space.isTable[(machPortIndex name).toNat]? = some e → ieBitsType e.ieBits = 0 :=
          fun e found => by_contra fun typed => used ⟨e, found, typed⟩
        obtain ⟨allocated, added, run, -, -, sized, takenOff⟩ := taken zero small none
        rw [run, Option.some.injEq, Prod.mk.injEq] at alloc
        obtain ⟨rfl, rfl⟩ := alloc
        exact .inr ⟨rfl, sized, _, takenOff⟩
  · rw [atMax (by omega), Option.some.injEq, Prod.mk.injEq] at alloc
    exact .inl ⟨alloc.2.symm, fun success => by rw [← alloc.1] at success; cases success⟩

/-- Every step keeps a space valid. -/
theorem IpcEntryStep.valid (sizes : IpcTableSizes its) {space' : IpcSpace} (valid : space.Valid its free)
    (step : IpcEntryStep its space space') : ∃ free', space'.Valid its free' := by
  cases step with
  | get rollpoint entry get typed =>
    unfold ipcEntryGet at get
    rw [ipcEntriesHold_eq valid.freeList 1] at get
    by_cases room : space.isTableHashed + 1 ≤ space.isTable.length * 7 / 8 ∧ 1 ≤ free.length
    · rw [decide_eq_true room, Option.map_eq_some_iff] at get
      obtain ⟨_, claim, same⟩ := get
      rw [Option.some.injEq] at same
      subst same
      exact valid.claim_write claim (by omega) typed
    · rw [decide_eq_false room] at get
      cases get
  | holdClaims n writes hold length typed claims =>
    rw [ipcEntriesHold_eq valid.freeList n, Option.some.injEq, decide_eq_true_iff] at hold
    obtain ⟨final, got, run, -, -, rest⟩ := valid.claimWrites_spec sizes writes (by omega) typed
    rw [claims, Option.some.injEq, Prod.mk.injEq] at run
    obtain ⟨rfl, -⟩ := run
    exact rest
  | allocName which name entry alloc typed =>
    rcases valid.allocName_cases sizes alloc with ⟨rfl, used⟩ | ⟨-, sized, free', taken⟩
    · obtain ⟨e, found, inUse⟩ := used rfl
      exact ⟨free, valid.sized.of_sameSize (IpcSpace.sameSize_writeEntry _ _ entry),
        valid.freeList.write_inUse found inUse typed⟩
    · exact ⟨free', sized.of_sameSize (IpcSpace.sameSize_writeEntry _ _ entry), taken.written entry typed⟩
  | allocNameRefused which name alloc refused =>
    rcases valid.allocName_cases sizes alloc with ⟨rfl, -⟩ | ⟨success, -⟩
    · exact ⟨free, valid⟩
    · exact absurd success refused
  | dealloc name entryIndex found inUse noObject dealloc =>
    rcases valid.freeList.dealloc_spec found inUse noObject dealloc with rfl | ⟨inv, same⟩
    · exact ⟨free, valid⟩
    · exact ⟨_, valid.sized.of_sameSize same, inv⟩
  | grow which target grow =>
    obtain ⟨kr, grown, run, outcome, -⟩ := valid.growTable_spec sizes which target
    rw [grow, Option.some.injEq, Prod.mk.injEq] at run
    obtain ⟨rfl, rfl⟩ := run
    rcases outcome with ⟨-, rfl⟩ | ⟨-, added, -, grownValid⟩
    · exact ⟨free, valid⟩
    · exact ⟨_, grownValid⟩
  | update index entry found inUse typed =>
    exact ⟨free, valid.sized.of_sameSize (space.sameSize_writeEntry _ entry),
      valid.freeList.write_inUse found inUse typed⟩

/-- Every reachable space is valid. -/
theorem IpcSpaceReach.valid (sizes : IpcTableSizes its) (reach : IpcSpaceReach its space) :
    ∃ free, space.Valid its free := by
  induction reach with
  | create which initial notLast create => exact ipcSpaceCreate_valid sizes which notLast create
  | step _ step ih =>
    obtain ⟨free, valid⟩ := ih
    exact step.valid sizes valid

end Steps

/-- What `ipc_entry.c` keeps of a space whose free list is `free`: the list
runs from slot 0 through distinct slots of the table past 0 and ends at 0, it
holds exactly the entries of type NONE, `is_table_free` counts it, and slot 0
is of type NONE and generation 0; a successful `ipc_entries_hold(n)` covers the
next `n` claims, each of a slot past 0 with a valid name; and
`ipc_entry_alloc_name` returns in every case, with `KERN_NO_SPACE` from
`ipc_table_max_entries()` on, and below it the existing entry, `KERN_FAILURE`,
or the slot taken off the free list. -/
structure IpcEntryTableContract (its : List Nat) (space : IpcSpace) (free : List Nat) : Prop where
  chain : ChainFrom (IpcEntry.link space.isTable) 0 free
  nodup : free.Nodup
  inside : ∀ i ∈ free, 0 < i ∧ i < space.isTable.length
  none_iff : ∀ i e, space.isTable[i]? = some e → 0 < i → (i ∈ free ↔ ieBitsType e.ieBits = 0)
  count : space.isTableFree = free.length
  head : ∃ e, space.isTable[0]? = some e ∧ ieBitsType e.ieBits = 0 ∧ ieBitsGen e.ieBits = 0
  holdClaims : ∀ n writes, ipcEntriesHold space n = some true → writes.length = n →
    (∀ w ∈ writes, ieBitsType w.2.ieBits ≠ 0) →
    ∃ final got, ipcEntryClaimWrites space writes = some (final, got) ∧ got.length = n ∧
      ∀ p ∈ got, 0 < p.2 ∧ machPortIndex p.1 = p.2.toUInt32 ∧ machPortValid p.1 = true
  allocName_max : ∀ which name, ipcTableMaxEntries its ≤ (machPortIndex name).toNat →
    ipcEntryAllocName its which space name = some (.noSpace, space)
  allocName_existing : ∀ which name e, (machPortIndex name).toNat < ipcTableMaxEntries its →
    space.isTable[(machPortIndex name).toNat]? = some e → ieBitsType e.ieBits ≠ 0 →
    ieBitsGen e.ieBits = machPortGen name → ipcEntryAllocName its which space name = some (.success, space)
  allocName_failure : ∀ which name, (machPortIndex name).toNat < ipcTableMaxEntries its →
    ((machPortIndex name).toNat = 0 ∨ ∃ e, space.isTable[(machPortIndex name).toNat]? = some e ∧
      ieBitsType e.ieBits ≠ 0 ∧ ieBitsGen e.ieBits ≠ machPortGen name) →
    ipcEntryAllocName its which space name = some (.failure, space)
  allocName_free : ∀ which name, (machPortIndex name).toNat < ipcTableMaxEntries its →
    (machPortIndex name).toNat ≠ 0 →
    (∀ e, space.isTable[(machPortIndex name).toNat]? = some e → ieBitsType e.ieBits = 0) →
    ∃ allocated added, ipcEntryAllocName its which space name = some (.success, allocated) ∧
      (∀ i, i ∈ added ↔ space.isTable.length ≤ i ∧ i < allocated.isTable.length) ∧
      (machPortIndex name).toNat ∈ free ++ added ∧
      allocated.TakenOff (machPortIndex name).toNat (machPortGen name)
        ((free ++ added).erase (machPortIndex name).toNat)

theorem IpcSpace.Valid.contract {its : List Nat} {space : IpcSpace} {free : List Nat}
    (sizes : IpcTableSizes its) (valid : space.Valid its free) : IpcEntryTableContract its space free := by
  have inv := valid.freeList
  refine ⟨inv.chain, inv.chain.nodup, fun i mem => ⟨inv.pos mem, inv.mem_lt mem⟩, inv.none_iff, inv.count,
    ?_, fun n writes hold length typed => ?_, fun which name => ?_, fun which name e small found typed same => ?_,
    fun which name small refused => ?_, fun which name small nonzero none => ?_⟩
  · obtain ⟨e, found, -, type, gen⟩ := inv.head
    exact ⟨e, found, type, gen⟩
  · rw [ipcEntriesHold_eq inv n, Option.some.injEq, decide_eq_true_iff] at hold
    obtain ⟨final, got, run, gotLength, names, -⟩ := valid.claimWrites_spec sizes writes (by omega) typed
    exact ⟨final, got, run, by omega, names⟩
  · exact (valid.allocName_spec sizes which rfl).1
  · rw [(valid.allocName_spec sizes which rfl).2.2.1 e found typed, if_pos same]
  · rcases refused with zero | ⟨e, found, typed, other⟩
    · exact (valid.allocName_spec sizes which rfl).2.1 zero
    · rw [(valid.allocName_spec sizes which rfl).2.2.1 e found typed, if_neg other]
  · obtain ⟨allocated, added, run, members, mem, -, taken⟩ :=
      (valid.allocName_spec sizes which rfl).2.2.2 nonzero small none
    exact ⟨allocated, added, run, members, mem, taken⟩

/-- Every space reachable from `ipc_space_create` by the entry-table
operations, with the callers' writes between them, keeps the contract of
`ipc_entry.c` for some free list. -/
theorem ipcSpaceReach_entryTable {its : List Nat} {space : IpcSpace} (sizes : IpcTableSizes its)
    (reach : IpcSpaceReach its space) : ∃ free, IpcEntryTableContract its space free := by
  obtain ⟨free, valid⟩ := reach.valid sizes
  exact ⟨free, valid.contract sizes⟩

theorem ipcTableSizes_two_four : IpcTableSizes [2, 4, 4] where
  two := by decide
  first a found := by
    simp only [List.getElem?_cons_zero, Option.some.injEq] at found
    omega
  increasing i j a b lt notLast first second := by
    have atOne : j = 1 := by simp only [List.length_cons, List.length_nil] at notLast; omega
    have atZero : i = 0 := by omega
    subst atOne atZero
    simp only [List.getElem?_cons_zero, List.getElem?_cons_succ, Option.some.injEq] at first second
    omega
  last := rfl
  bounded i a found := by
    have mem := List.mem_of_getElem? found
    simp only [List.mem_cons, List.not_mem_nil, or_false] at mem
    omega

/-- A space made with the 2-entry table, then `ipc_entry_alloc_name` of index
3, which grows the table to 4 entries and takes slot 3, then `ipc_entry_get`,
which takes slot 1 off the free list; the callers write a port into each. -/
theorem ipcSpaceReach_entryTable_allocGet :
    IpcTableSizes [2, 4, 4] ∧
      IpcSpaceReach [2, 4, 4] ⟨[⟨none, 0, 2⟩, ⟨some 8, 0x00010000, 0⟩, ⟨none, 0xff000000, 0⟩,
        ⟨some 7, 0x04010000, 0⟩], 1, 0, 2⟩ ∧
      ∃ free, IpcEntryTableContract [2, 4, 4] ⟨[⟨none, 0, 2⟩, ⟨some 8, 0x00010000, 0⟩, ⟨none, 0xff000000, 0⟩,
        ⟨some 7, 0x04010000, 0⟩], 1, 0, 2⟩ free :=
  have created : IpcSpaceReach [2, 4, 4] ⟨[⟨none, 0, 1⟩, ⟨none, 0xff000000, 0⟩], 1, 0, 1⟩ :=
    .create (fun _ => false) 0 (by decide) (by decide)
  have named : IpcSpaceReach [2, 4, 4] ⟨[⟨none, 0, 1⟩, ⟨none, 0xff000000, 2⟩, ⟨none, 0xff000000, 0⟩,
      ⟨some 7, 0x04010000, 0⟩], 2, 0, 2⟩ :=
    .step created (@IpcEntryStep.allocName [2, 4, 4] _ ⟨[⟨none, 0, 1⟩, ⟨none, 0xff000000, 2⟩,
      ⟨none, 0xff000000, 0⟩, ⟨none, 0x04000000, 0⟩], 2, 0, 2⟩ (fun _ => false) (machPortMake 3 0x04000000)
      ⟨some 7, 0x04010000, 0⟩ (by decide) (by decide))
  have got : IpcSpaceReach [2, 4, 4] ⟨[⟨none, 0, 2⟩, ⟨some 8, 0x00010000, 0⟩, ⟨none, 0xff000000, 0⟩,
      ⟨some 7, 0x04010000, 0⟩], 1, 0, 2⟩ :=
    .step named (@IpcEntryStep.get [2, 4, 4] _ ⟨[⟨none, 0, 2⟩, ⟨none, 0x03000000, 0⟩, ⟨none, 0xff000000, 0⟩,
      ⟨some 7, 0x04010000, 0⟩], 1, 0, 2⟩ 259 1 0 ⟨some 8, 0x00010000, 0⟩ (by decide) (by decide))
  ⟨ipcTableSizes_two_four, got, ipcSpaceReach_entryTable ipcTableSizes_two_four got⟩

/-- At the index `ipc_table_max_entries()` itself, the check `index >
ipc_table_max_entries()` lets a name through, its slot is past a fresh table
and so free, and yet `ipc_entry_alloc_name` returns `KERN_NO_SPACE`: the growth
to `index + 1` entries finds no size, where the code asserts
`kr != KERN_NO_SPACE`. -/
theorem ipcEntryAllocName_at_max_noSpace :
    ipcSpaceCreate [2, 4, 4] (fun _ => false) 0 = some ⟨[⟨none, 0, 1⟩, ⟨none, 0xff000000, 0⟩], 1, 0, 1⟩ ∧
      (machPortIndex (machPortMake 4 0x04000000)).toNat = ipcTableMaxEntries [2, 4, 4] ∧
      ipcEntryGrowTable [2, 4, 4] (fun _ => false) ⟨[⟨none, 0, 1⟩, ⟨none, 0xff000000, 0⟩], 1, 0, 1⟩ (some 5) =
        some (.noSpace, ⟨[⟨none, 0, 1⟩, ⟨none, 0xff000000, 0⟩], 1, 0, 1⟩) ∧
      ipcEntryAllocName [2, 4, 4] (fun _ => false) ⟨[⟨none, 0, 1⟩, ⟨none, 0xff000000, 0⟩], 1, 0, 1⟩
        (machPortMake 4 0x04000000) = some (.noSpace, ⟨[⟨none, 0, 1⟩, ⟨none, 0xff000000, 0⟩], 1, 0, 1⟩) := by
  decide

end Xnu.Ipc
