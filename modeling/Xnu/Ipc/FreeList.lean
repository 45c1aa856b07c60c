import Xnu.Ipc.Entry
import Xnu.Lib.LinkedIndex

namespace Xnu.Ipc

/-! The free list of an IPC space, and the operations of `ipc_entry.c` that
take entries off it and put them back, against it. The list is read off the
links `ie_next` from slot 0 (`ChainFrom`); `FreeList space free` says that the
links visit `free` and that it holds exactly the free slots. -/

theorem machPortIndex_make {index : UInt32} (gen : UInt32) (small : index.toNat < 2 ^ 24) :
    machPortIndex (machPortMake index gen) = index := by
  apply UInt32.toNat_inj.mp
  have shifted : index.toNat <<< 8 < 4294967296 := by rw [Nat.shiftLeft_eq]; omega
  have low : gen.toNat >>> 24 >>> 8 = 0 := by
    rw [← Nat.shiftRight_add, Nat.shiftRight_eq_div_pow]
    exact Nat.div_eq_of_lt gen.toNat_lt
  simp only [machPortIndex, machPortMake, UInt32.toNat_shiftRight, UInt32.toNat_or,
    UInt32.toNat_shiftLeft, UInt32.reduceToNat, Nat.reduceMod]
  rw [Nat.mod_eq_of_lt shifted, Nat.shiftRight_or_distrib, Nat.shiftLeft_shiftRight, low, Nat.or_zero]

/-- A name made from an index in `[1, MACH_PORT_INDEX(MACH_PORT_DEAD))` is
neither `MACH_PORT_NULL` nor `MACH_PORT_DEAD`. -/
theorem machPortValid_make {index : UInt32} (gen : UInt32) (pos : 0 < index.toNat)
    (lt : index.toNat < 0xFFFFFF) : machPortValid (machPortMake index gen) = true := by
  have roundTrip := congrArg UInt32.toNat (machPortIndex_make gen (show index.toNat < 2 ^ 24 by omega))
  simp only [machPortValid, Bool.and_eq_true, bne_iff_ne, ne_eq]
  constructor
  · intro null
    rw [null] at roundTrip
    simp only [machPortIndex, UInt32.zero_shiftRight, UInt32.toNat_zero] at roundTrip
    omega
  · intro dead
    have deadIndex : (machPortIndex machPortDead).toNat = 0xFFFFFF := by decide
    rw [dead, deadIndex] at roundTrip
    omega

theorem ieBitsType_free (next : Nat) : ieBitsType (IpcEntry.free next).ieBits = 0 := by
  change ieBitsType ieBitsGenMask = 0
  decide

/-- `ipc_entry_dealloc` keeps only the generation and rollover bits, so the
entry it frees is of type `MACH_PORT_TYPE_NONE`. -/
theorem ieBitsType_dealloc (bits : UInt32) :
    ieBitsType (bits &&& (ieBitsGenMask ||| ieBitsRollMask)) = 0 := by
  have disjoint : (ieBitsGenMask ||| ieBitsRollMask) &&& ieBitsTypeMask = 0 := by decide
  rw [ieBitsType, UInt32.and_assoc, disjoint, UInt32.and_zero]

namespace IpcEntry

variable {table : List IpcEntry} {i j : Nat}

theorem link_eq_some {next : Nat} :
    link table i = some next ↔ ∃ e, table[i]? = some e ∧ e.ieNext = next := by
  simp [link]

theorem link_isSome_iff : (link table i).isSome ↔ i < table.length := by
  simp [link]

theorem link_set_ne (e : IpcEntry) (ne : j ≠ i) : link (table.set i e) j = link table j := by
  simp only [link, List.getElem?_set_ne (Ne.symm ne)]

theorem link_set_self (e : IpcEntry) (inside : i < table.length) :
    link (table.set i e) i = some e.ieNext := by
  simp only [link, List.getElem?_set_self inside, Option.map_some]

theorem link_modify_ne (f : IpcEntry → IpcEntry) (ne : j ≠ i) :
    link (table.modify i f) j = link table j := by
  simp only [link, List.getElem?_modify_ne _ _ (Ne.symm ne)]

/-- Rewriting the bits of a slot keeps every link. -/
theorem link_modify_bits (bits : UInt32) :
    link (table.modify i fun e => { e with ieBits := bits }) j = link table j := by
  by_cases same : i = j
  · subst same
    simp only [link, List.getElem?_modify_eq]
    cases table[i]? <;> rfl
  · exact link_modify_ne _ (Ne.symm same)

theorem link_writeEntry_ne {space : IpcSpace} (e : IpcEntry) (ne : j ≠ i) :
    link (space.writeEntry i e).isTable j = link space.isTable j :=
  link_set_ne e ne

end IpcEntry

@[simp] theorem IpcSpace.writeEntry_length (space : IpcSpace) (i : Nat) (e : IpcEntry) :
    (space.writeEntry i e).isTable.length = space.isTable.length := List.length_set

/-- The free list of a space: from slot 0 the links visit `free` and end at
0; the slots past 0 on it are exactly those of type `MACH_PORT_TYPE_NONE`,
they hold no object, and `is_table_free` counts them. Slot 0, the head, is of
type NONE and generation 0 and holds no object. -/
structure IpcSpace.FreeList (space : IpcSpace) (free : List Nat) : Prop where
  chain : ChainFrom (IpcEntry.link space.isTable) 0 free
  none_iff : ∀ i e, space.isTable[i]? = some e → 0 < i → (i ∈ free ↔ ieBitsType e.ieBits = 0)
  object : ∀ i ∈ free, ∀ e, space.isTable[i]? = some e → e.ieObject = none
  count : space.isTableFree = free.length
  head : ∃ e, space.isTable[0]? = some e ∧ e.ieObject = none ∧ ieBitsType e.ieBits = 0 ∧
    ieBitsGen e.ieBits = 0

namespace IpcSpace.FreeList

variable {space : IpcSpace} {free : List Nat}

theorem mem_lt (inv : space.FreeList free) {i : Nat} (mem : i ∈ free) : i < space.isTable.length :=
  inv.chain.mem_lt (fun _ => IpcEntry.link_isSome_iff.symm) i mem

theorem pos (inv : space.FreeList free) {i : Nat} (mem : i ∈ free) : 0 < i :=
  Nat.pos_of_ne_zero fun zero => inv.chain.zero_not_mem (zero ▸ mem)

/-- A slot in use is not on the free list. -/
theorem not_mem_of_type (inv : space.FreeList free) {i : Nat} {e : IpcEntry}
    (found : space.isTable[i]? = some e) (inUse : ieBitsType e.ieBits ≠ 0) : i ∉ free := fun mem =>
  inUse ((inv.none_iff i e found (inv.pos mem)).mp mem)

/-- A slot in use is not the head. -/
theorem ne_zero_of_type (inv : space.FreeList free) {i : Nat} {e : IpcEntry}
    (found : space.isTable[i]? = some e) (inUse : ieBitsType e.ieBits ≠ 0) : i ≠ 0 := by
  rintro rfl
  obtain ⟨head, foundHead, -, headType, -⟩ := inv.head
  rw [foundHead, Option.some.injEq] at found
  exact inUse (found ▸ headType)

theorem type_of_mem (inv : space.FreeList free) {i : Nat} (mem : i ∈ free) :
    ∃ e, space.isTable[i]? = some e ∧ ieBitsType e.ieBits = 0 ∧ e.ieObject = none := by
  have found := List.getElem?_eq_getElem (inv.mem_lt mem)
  exact ⟨_, found, (inv.none_iff i _ found (inv.pos mem)).mp mem, inv.object i mem _ found⟩

/-- The free list holds at most the slots past 0. -/
theorem length_lt (inv : space.FreeList free) : free.length < space.isTable.length := by
  obtain ⟨head, found, -⟩ := inv.head
  have inside : 0 < space.isTable.length := (List.getElem?_eq_some_iff.mp found).1
  have sub : free.toFinset ⊆ Finset.Ioo 0 space.isTable.length := by
    intro i mem
    rw [List.mem_toFinset] at mem
    exact Finset.mem_Ioo.mpr ⟨inv.pos mem, inv.mem_lt mem⟩
  have card := Finset.card_le_card sub
  rw [List.toFinset_card_of_nodup inv.chain.nodup, Nat.card_Ioo] at card
  omega

end IpcSpace.FreeList

/-- Two spaces whose tables have one size, with the same `is_table_hashed`
and `is_table_next`. -/
structure IpcSpace.SameSize (space space' : IpcSpace) : Prop where
  length : space'.isTable.length = space.isTable.length
  hashed : space'.isTableHashed = space.isTableHashed
  next : space'.isTableNext = space.isTableNext

theorem IpcSpace.sameSize_writeEntry (space : IpcSpace) (i : Nat) (e : IpcEntry) :
    space.SameSize (space.writeEntry i e) := ⟨List.length_set, rfl, rfl⟩

/-- The slot `index` has just been taken off the free list for a name of
generation `gen`: it holds no object, no request and only the generation, and
once the caller has written an entry in use there the free list is `free`. -/
structure IpcSpace.TakenOff (space : IpcSpace) (index : Nat) (gen : UInt32) (free : List Nat) : Prop where
  entry : ∃ e, space.isTable[index]? = some e ∧ e.ieObject = none ∧ e.ieNext = 0 ∧ e.ieBits = gen
  written : ∀ e, ieBitsType e.ieBits ≠ 0 → (space.writeEntry index e).FreeList free

/-! `ipc_entries_hold` and `ipc_entry_claim`. -/

/-- The walk of `ipc_entries_hold` along a chain finds `n` more links exactly
when the chain has `n` nodes. -/
theorem ipcEntriesHoldWalk_chain {table : List IpcEntry} {i : Nat} {l : List Nat}
    (chain : ChainFrom (IpcEntry.link table) i l) (n : Nat) :
    ipcEntriesHoldWalk table n i = some (decide (n ≤ l.length)) := by
  induction chain generalizing n with
  | last stop =>
    obtain ⟨e, found, next⟩ := IpcEntry.link_eq_some.mp stop
    cases n with
    | zero => rfl
    | succ n => simp [ipcEntriesHoldWalk, found, next]
  | next step nonzero _ ih =>
    obtain ⟨e, found, next⟩ := IpcEntry.link_eq_some.mp step
    cases n with
    | zero => rfl
    | succ n => simp [ipcEntriesHoldWalk, found, next, nonzero, ih]

theorem ipcEntriesHold_eq {space : IpcSpace} {free : List Nat} (inv : space.FreeList free) (n : Nat) :
    ipcEntriesHold space n =
      some (decide (space.isTableHashed + n ≤ space.isTable.length * 7 / 8 ∧ n ≤ free.length)) := by
  unfold ipcEntriesHold
  split_ifs with full
  · simp only [Option.some.injEq, false_eq_decide_iff, not_and, not_le]
    omega
  · rw [ipcEntriesHoldWalk_chain inv.chain]
    simp only [Option.some.injEq, decide_eq_decide]
    omega

section Claim

variable {space : IpcSpace} {j : Nat} {l : List Nat} {head entry e : IpcEntry}

/-- Unlinking the first free slot `j` through the head and writing an entry
in use there leaves the rest of the free list. -/
theorem IpcSpace.FreeList.claim_write (inv : space.FreeList (j :: l))
    (foundHead : space.isTable[0]? = some head) (foundEntry : space.isTable[j]? = some entry)
    (typed : ieBitsType e.ieBits ≠ 0) :
    IpcSpace.FreeList { space with
      isTable := (space.isTable.set 0 { head with ieNext := entry.ieNext }).set j e,
      isTableFree := space.isTableFree - 1 } l := by
  have jPos := inv.pos List.mem_cons_self
  have headLt : 0 < space.isTable.length := (List.getElem?_eq_some_iff.mp foundHead).1
  have nodup := inv.chain.nodup
  rw [List.nodup_cons] at nodup
  have zeroFresh : 0 ∉ l := fun mem => inv.chain.zero_not_mem (List.mem_cons_of_mem j mem)
  have untouched : ∀ k, k ≠ 0 → k ≠ j →
      ((space.isTable.set 0 { head with ieNext := entry.ieNext }).set j e)[k]? = space.isTable[k]? := by
    intro k kNe0 kNeJ
    rw [List.getElem?_set_ne (Ne.symm kNeJ), List.getElem?_set_ne (Ne.symm kNe0)]
  constructor
  · refine inv.chain.skip ?_ fun k mem => ?_
    · rw [IpcEntry.link_set_ne e (Nat.ne_of_lt jPos), IpcEntry.link_set_self _ headLt]
      simp [IpcEntry.link, foundEntry]
    · have kNe0 : k ≠ 0 := fun eq => zeroFresh (eq ▸ mem)
      have kNeJ : k ≠ j := fun eq => nodup.1 (eq ▸ mem)
      simp only [IpcEntry.link, untouched k kNe0 kNeJ]
  · intro i e' found pos
    by_cases atJ : i = j
    · subst atJ
      rw [List.getElem?_set_self (by simpa using inv.mem_lt List.mem_cons_self),
        Option.some.injEq] at found
      subst found
      simp only [typed, iff_false]
      exact nodup.1
    · rw [untouched i (Nat.ne_of_gt pos) atJ] at found
      rw [← inv.none_iff i e' found pos, List.mem_cons, or_iff_right atJ]
  · intro i mem e' found
    have iNeJ : i ≠ j := fun eq => nodup.1 (eq ▸ mem)
    rw [untouched i (fun eq => zeroFresh (eq ▸ mem)) iNeJ] at found
    exact inv.object i (List.mem_cons_of_mem j mem) e' found
  · simp only [inv.count, List.length_cons, Nat.add_sub_cancel]
  · obtain ⟨_, foundHead', headObject, headType, headGen⟩ := inv.head
    rw [foundHead, Option.some.injEq] at foundHead'
    subst foundHead'
    refine ⟨{ head with ieNext := entry.ieNext }, ?_, headObject, headType, headGen⟩
    dsimp only
    rw [List.getElem?_set_ne (Nat.ne_of_gt jPos), List.getElem?_set_self headLt]

/-- `ipc_entry_claim` on a space whose free list starts with `j`: it returns
`j` and a name for it, and once the caller has written an entry of a type
other than NONE there, the free list is the rest. -/
theorem ipcEntryClaim_spec (inv : space.FreeList (j :: l)) (rollpoint : UInt32) :
    ∃ claimed gen, ipcEntryClaim space rollpoint = some (claimed, machPortMake j.toUInt32 gen, j) ∧
      claimed.TakenOff j gen l ∧ space.SameSize claimed := by
  obtain ⟨head, foundHead, -⟩ := inv.head
  have first : IpcEntry.link space.isTable 0 = some j := by
    cases inv.chain with
    | next step _ _ => exact step
  obtain ⟨head', foundHead', headNext⟩ := IpcEntry.link_eq_some.mp first
  rw [foundHead, Option.some.injEq] at foundHead'
  subst foundHead'
  obtain ⟨entry, foundEntry, -, entryObject⟩ := inv.type_of_mem List.mem_cons_self
  have jLt := inv.mem_lt List.mem_cons_self
  obtain ⟨⟨claimed, name, index⟩, run⟩ : ∃ r, ipcEntryClaim space rollpoint = some r := by
    simp [ipcEntryClaim, foundHead, headNext, foundEntry]
  have result := run
  simp only [ipcEntryClaim, foundHead, headNext, foundEntry, Option.bind_eq_bind, Option.bind_some,
    Option.pure_def, Option.some.injEq, Prod.mk.injEq] at result
  obtain ⟨rfl, rfl, rfl⟩ := result
  refine ⟨_, _, run, ⟨⟨_, List.getElem?_set_self (by simpa using jLt), entryObject, rfl, rfl⟩,
    fun e typed => ?_⟩, ⟨by simp, rfl, rfl⟩⟩
  simp only [IpcSpace.writeEntry, List.set_set]
  exact inv.claim_write foundHead foundEntry typed

end Claim

/-! `ipc_entry_dealloc`. -/

section Dealloc

variable {space : IpcSpace} {free : List Nat} {index : Nat} {head e freed : IpcEntry}

/-- Freeing the slot `index`, which was in use: the entry written there is of
type NONE with no object and takes over the head's link, and the head links
to it, so it goes first on the free list. -/
theorem IpcSpace.FreeList.dealloc_push (inv : space.FreeList free)
    (foundHead : space.isTable[0]? = some head) (found : space.isTable[index]? = some e)
    (inUse : ieBitsType e.ieBits ≠ 0) (freedType : ieBitsType freed.ieBits = 0)
    (freedObject : freed.ieObject = none) (freedNext : freed.ieNext = head.ieNext) :
    IpcSpace.FreeList { space with
      isTable := (space.isTable.set index freed).modify 0 fun head => { head with ieNext := index },
      isTableFree := space.isTableFree + 1 } (index :: free) := by
  obtain ⟨head', foundHead', headObject, headType, headGen⟩ := inv.head
  rw [foundHead, Option.some.injEq] at foundHead'
  subst foundHead'
  have indexNe0 := inv.ne_zero_of_type found inUse
  have fresh := inv.not_mem_of_type found inUse
  have indexLt : index < space.isTable.length := (List.getElem?_eq_some_iff.mp found).1
  have untouched : ∀ k, k ≠ 0 → k ≠ index →
      ((space.isTable.set index freed).modify 0 fun head => { head with ieNext := index })[k]? =
        space.isTable[k]? := by
    intro k kNe0 kNeIndex
    rw [List.getElem?_modify_ne _ _ (Ne.symm kNe0), List.getElem?_set_ne (Ne.symm kNeIndex)]
  have atIndex :
      ((space.isTable.set index freed).modify 0 fun head => { head with ieNext := index })[index]? =
        some freed := by
    rw [List.getElem?_modify_ne _ _ (Ne.symm indexNe0), List.getElem?_set_self indexLt]
  have atHead :
      ((space.isTable.set index freed).modify 0 fun head => { head with ieNext := index })[0]? =
        some { head with ieNext := index } := by
    rw [List.getElem?_modify_eq, List.getElem?_set_ne indexNe0, foundHead]
    rfl
  constructor
  · refine inv.chain.push indexNe0 (by simp [IpcEntry.link, atHead]) ?_ fun k mem => ?_
    · simp [IpcEntry.link, atIndex, foundHead, freedNext]
    · have kNe0 : k ≠ 0 := fun eq => inv.chain.zero_not_mem (eq ▸ mem)
      have kNeIndex : k ≠ index := fun eq => fresh (eq ▸ mem)
      simp only [IpcEntry.link, untouched k kNe0 kNeIndex]
  · intro i e' found' pos
    by_cases atI : i = index
    · subst atI
      rw [atIndex, Option.some.injEq] at found'
      subst found'
      simp only [List.mem_cons_self, freedType]
    · rw [untouched i (Nat.ne_of_gt pos) atI] at found'
      rw [← inv.none_iff i e' found' pos, List.mem_cons, or_iff_right atI]
  · intro i mem e' found'
    by_cases atI : i = index
    · subst atI
      rw [atIndex, Option.some.injEq] at found'
      rw [← found', freedObject]
    · have inFree : i ∈ free := (List.mem_cons.mp mem).resolve_left atI
      rw [untouched i (Nat.ne_of_gt (inv.pos inFree)) atI] at found'
      exact inv.object i inFree e' found'
  · simp only [inv.count, List.length_cons]
  · exact ⟨_, atHead, headObject, headType, headGen⟩

/-- `ipc_entry_dealloc` of a slot in use whose object is gone: it panics on a
pending request, frees the slot when the name indexes it, and does nothing
otherwise. -/
theorem IpcSpace.FreeList.dealloc_spec (inv : space.FreeList free) {name : UInt32} {entryIndex : Nat}
    {space' : IpcSpace} (found : space.isTable[entryIndex]? = some e) (inUse : ieBitsType e.ieBits ≠ 0)
    (noObject : e.ieObject = none) (dealloc : ipcEntryDealloc space name entryIndex = some space') :
    space' = space ∨ space'.FreeList (entryIndex :: free) ∧ space.SameSize space' := by
  unfold ipcEntryDealloc at dealloc
  simp only [found] at dealloc
  split_ifs at dealloc with request named
  · obtain ⟨-, rfl⟩ := named
    obtain ⟨head, foundHead, -⟩ := inv.head
    simp only [foundHead, Option.some.injEq] at dealloc
    subst dealloc
    exact .inr ⟨inv.dealloc_push foundHead found inUse (ieBitsType_dealloc _) noObject rfl,
      ⟨by simp, rfl, rfl⟩⟩
  · exact .inl (Option.some.inj dealloc).symm

end Dealloc

/-- A caller's write of an entry in use over a slot in use leaves the free
list as it is. -/
theorem IpcSpace.FreeList.write_inUse {space : IpcSpace} {free : List Nat} (inv : space.FreeList free)
    {index : Nat} {e entry : IpcEntry} (found : space.isTable[index]? = some e)
    (inUse : ieBitsType e.ieBits ≠ 0) (typed : ieBitsType entry.ieBits ≠ 0) :
    (space.writeEntry index entry).FreeList free := by
  have fresh := inv.not_mem_of_type found inUse
  have indexNe0 := inv.ne_zero_of_type found inUse
  have untouched : ∀ k, k ≠ index → (space.writeEntry index entry).isTable[k]? = space.isTable[k]? :=
    fun k ne => List.getElem?_set_ne (Ne.symm ne)
  constructor
  · exact inv.chain.frame (IpcEntry.link_writeEntry_ne entry (Ne.symm indexNe0)) fun k mem =>
      IpcEntry.link_writeEntry_ne entry fun eq => fresh (eq ▸ mem)
  · intro i e' found' pos
    by_cases atI : i = index
    · subst atI
      have inside : i < space.isTable.length := (List.getElem?_eq_some_iff.mp found).1
      rw [IpcSpace.writeEntry, List.getElem?_set_self inside, Option.some.injEq] at found'
      subst found'
      simp only [typed, iff_false]
      exact fresh
    · rw [untouched i atI] at found'
      exact inv.none_iff i e' found' pos
  · intro i mem e' found'
    rw [untouched i fun eq => fresh (eq ▸ mem)] at found'
    exact inv.object i mem e' found'
  · exact inv.count
  · obtain ⟨head, foundHead, rest⟩ := inv.head
    exact ⟨head, by rw [untouched 0 (Ne.symm indexNe0)]; exact foundHead, rest⟩

/-! The predecessor search and case 4 of `ipc_entry_alloc_name`. -/

/-- Along a chain through `index`, the predecessor search of
`ipc_entry_alloc_name` stops at the node just before `index`. -/
theorem ipcEntryFindPred_chain {table : List IpcEntry} {index i fuel : Nat} {l : List Nat}
    (chain : ChainFrom (IpcEntry.link table) i l) (mem : index ∈ l) (enough : l.length ≤ fuel) :
    ∃ p pre post, ipcEntryFindPred table index fuel i = some p ∧ l = pre ++ index :: post ∧
      Segment (IpcEntry.link table) i pre p := by
  induction chain generalizing fuel with
  | last _ => simp at mem
  | @next i j l step nonzero _ ih =>
    obtain ⟨e, found, next⟩ := IpcEntry.link_eq_some.mp step
    obtain ⟨fuel, rfl⟩ : ∃ f, fuel = f + 1 := ⟨fuel - 1, by simp at enough; omega⟩
    by_cases here : j = index
    · subst here
      exact ⟨i, [], l, by simp [ipcEntryFindPred, found, next], rfl, .refl⟩
    · have later : index ∈ l := (List.mem_cons.mp mem).resolve_left (Ne.symm here)
      obtain ⟨p, pre, post, run, split, segment⟩ := ih later (by simp at enough; omega)
      refine ⟨p, j :: pre, post, ?_, by rw [split, List.cons_append], .next step nonzero segment⟩
      simp [ipcEntryFindPred, found, next, here, run]

section AllocFree

variable {space : IpcSpace} {pre post : List Nat} {index p : Nat} {pred entry e : IpcEntry}

/-- Ripping `index` out of the middle of the free list through its
predecessor `p`, and writing an entry in use there. -/
theorem IpcSpace.FreeList.unlink_write (inv : space.FreeList (pre ++ index :: post))
    (segment : Segment (IpcEntry.link space.isTable) 0 pre p)
    (foundPred : space.isTable[p]? = some pred) (found : space.isTable[index]? = some entry)
    (typed : ieBitsType e.ieBits ≠ 0) :
    IpcSpace.FreeList { space with
      isTable := (space.isTable.set p { pred with ieNext := entry.ieNext }).set index e,
      isTableFree := space.isTableFree - 1 } (pre ++ post) := by
  have nodup := inv.chain.cons_nodup
  have indexFresh : index ∉ 0 :: (pre ++ post) := by
    simp only [List.nodup_cons, List.nodup_append, List.mem_append, List.mem_cons] at nodup
    simp only [List.mem_cons, List.mem_append, not_or]
    refine ⟨fun eq => nodup.1 (.inr (.inl eq.symm)), fun inPre => ?_, nodup.2.2.1.1⟩
    exact nodup.2.2.2 index inPre index (.inl rfl) rfl
  have endIn := segment.end_mem
  have predNe : p ≠ index := fun eq => indexFresh (by
    rw [← eq]
    exact (List.cons_subset_cons 0 (List.subset_append_left pre post)) endIn)
  have predLt : p < space.isTable.length := (List.getElem?_eq_some_iff.mp foundPred).1
  have untouched : ∀ k, k ≠ p → k ≠ index →
      ((space.isTable.set p { pred with ieNext := entry.ieNext }).set index e)[k]? =
        space.isTable[k]? := by
    intro k kNeP kNeIndex
    rw [List.getElem?_set_ne (Ne.symm kNeIndex), List.getElem?_set_ne (Ne.symm kNeP)]
  have atIndex : ((space.isTable.set p { pred with ieNext := entry.ieNext }).set index e)[index]? =
      some e := List.getElem?_set_self (by simpa using (List.getElem?_eq_some_iff.mp found).1)
  have atPred : ((space.isTable.set p { pred with ieNext := entry.ieNext }).set index e)[p]? =
      some { pred with ieNext := entry.ieNext } := by
    rw [List.getElem?_set_ne (Ne.symm predNe), List.getElem?_set_self predLt]
  -- Every slot but `index` keeps its object and its bits; only `p`'s link changes.
  have rights : ∀ i e', ((space.isTable.set p { pred with ieNext := entry.ieNext }).set index e)[i]? =
      some e' → i ≠ index → ∃ e₀, space.isTable[i]? = some e₀ ∧ e₀.ieObject = e'.ieObject ∧
        e₀.ieBits = e'.ieBits := by
    intro i e' found' atI
    by_cases atP : i = p
    · subst atP
      rw [atPred, Option.some.injEq] at found'
      exact ⟨pred, foundPred, by rw [← found'], by rw [← found']⟩
    · rw [untouched i atP atI] at found'
      exact ⟨e', found', rfl, rfl⟩
  have memIff : ∀ i, i ≠ index → (i ∈ pre ++ post ↔ i ∈ pre ++ index :: post) := by
    intro i atI
    simp only [List.mem_append, List.mem_cons, atI, false_or]
  constructor
  · refine inv.chain.unlink segment ?_ fun k mem kNeP => ?_
    · rw [IpcEntry.link_set_ne e predNe, IpcEntry.link_set_self _ predLt]
      simp [IpcEntry.link, found]
    · have kNeIndex : k ≠ index := fun eq => indexFresh (eq ▸ mem)
      simp only [IpcEntry.link, untouched k kNeP kNeIndex]
  · intro i e' found' pos
    by_cases atI : i = index
    · subst atI
      rw [atIndex, Option.some.injEq] at found'
      subst found'
      simp only [typed, iff_false]
      exact fun mem => indexFresh (List.mem_cons_of_mem 0 mem)
    · obtain ⟨e₀, found₀, -, sameBits⟩ := rights i e' found' atI
      rw [← sameBits, ← inv.none_iff i e₀ found₀ pos, memIff i atI]
  · intro i mem e' found'
    have atI : i ≠ index := fun eq => indexFresh (eq ▸ List.mem_cons_of_mem 0 mem)
    obtain ⟨e₀, found₀, sameObject, -⟩ := rights i e' found' atI
    rw [← sameObject]
    exact inv.object i ((memIff i atI).mp mem) e₀ found₀
  · simp only [inv.count, List.length_append, List.length_cons]
    omega
  · obtain ⟨head, foundHead, headObject, headType, headGen⟩ := inv.head
    have headNe : (0 : Nat) ≠ index := fun eq => indexFresh (eq ▸ List.mem_cons_self)
    have headLt : 0 < ((space.isTable.set p { pred with ieNext := entry.ieNext }).set index e).length := by
      simpa using (List.getElem?_eq_some_iff.mp foundHead).1
    obtain ⟨e₀, found₀, sameObject, sameBits⟩ :=
      rights 0 _ (List.getElem?_eq_getElem headLt) headNe
    rw [foundHead, Option.some.injEq] at found₀
    subst found₀
    exact ⟨_, List.getElem?_eq_getElem headLt, sameObject ▸ headObject, sameBits ▸ headType,
      sameBits ▸ headGen⟩

/-- Case 4 of `ipc_entry_alloc_name` on a free slot `index`: the predecessor
search finds it, the entry gets generation `gen`, no request and no object,
and once the caller has written an entry in use there the free list is the
old one without `index`. -/
theorem IpcSpace.FreeList.allocFree_spec {free : List Nat} (inv : space.FreeList free)
    (mem : index ∈ free) (gen : UInt32) :
    ∃ allocated, ipcEntryAllocFree space index gen = some allocated ∧
      allocated.TakenOff index gen (free.erase index) ∧ space.SameSize allocated := by
  obtain ⟨p, pre, post, run, rfl, segment⟩ :=
    ipcEntryFindPred_chain inv.chain mem (Nat.le_of_lt inv.length_lt)
  obtain ⟨q, segment', rest⟩ := inv.chain.split
  cases segment.end_unique segment'
  obtain ⟨pred, foundPred, -⟩ : ∃ pred, space.isTable[p]? = some pred ∧ pred.ieNext = index := by
    cases rest with
    | next step _ _ => exact IpcEntry.link_eq_some.mp step
  obtain ⟨entry, found, -, entryObject⟩ := inv.type_of_mem mem
  have indexLt := inv.mem_lt mem
  have indexNotInPre : index ∉ pre := by
    have nodup := inv.chain.nodup
    simp only [List.nodup_append, List.mem_cons] at nodup
    exact fun inPre => nodup.2.2 index inPre index (.inl rfl) rfl
  obtain ⟨allocated, result⟩ : ∃ r, ipcEntryAllocFree space index gen = some r := by
    simp [ipcEntryAllocFree, run, foundPred, found]
  have shape := result
  simp only [ipcEntryAllocFree, run, foundPred, found, Option.bind_eq_bind, Option.bind_some,
    Option.pure_def, Option.some.injEq] at shape
  subst shape
  refine ⟨_, result, ⟨⟨_, List.getElem?_set_self (by simpa using indexLt), entryObject, rfl, rfl⟩,
    fun e typed => ?_⟩, ⟨by simp, rfl, rfl⟩⟩
  rw [List.erase_append_right _ indexNotInPre, List.erase_cons_head]
  simp only [IpcSpace.writeEntry, List.set_set]
  exact inv.unlink_write segment foundPred found typed

/-- The body of the loop of `ipc_entry_alloc_name` for an index inside the
table: slot 0 is refused, a slot in use is returned when the generation is
the name's and refused otherwise, and a free slot is taken off the list. -/
theorem IpcSpace.FreeList.allocNameInTable_spec {free : List Nat} (inv : space.FreeList free)
    (gen : UInt32) (found : space.isTable[index]? = some entry) :
    (index = 0 → ipcEntryAllocNameInTable space index gen = some (.failure, space)) ∧
    (index ≠ 0 → ieBitsType entry.ieBits ≠ 0 → ipcEntryAllocNameInTable space index gen =
      some (if ieBitsGen entry.ieBits = gen then .success else .failure, space)) ∧
    (index ≠ 0 → ieBitsType entry.ieBits = 0 → index ∈ free ∧ ∃ allocated,
      ipcEntryAllocNameInTable space index gen = some (.success, allocated) ∧
      allocated.TakenOff index gen (free.erase index) ∧ space.SameSize allocated) := by
  refine ⟨fun zero => ?_, fun nonzero inUse => ?_, fun nonzero none => ?_⟩
  · subst zero
    simp [ipcEntryAllocNameInTable, found]
  · unfold ipcEntryAllocNameInTable
    simp only [found, if_neg nonzero, if_pos inUse]
    split_ifs <;> rfl
  · have mem : index ∈ free := (inv.none_iff index entry found (Nat.pos_of_ne_zero nonzero)).mpr none
    obtain ⟨allocated, run, taken, same⟩ := inv.allocFree_spec mem gen
    refine ⟨mem, allocated, ?_, taken, same⟩
    simp [ipcEntryAllocNameInTable, found, nonzero, none, run]

end AllocFree

end Xnu.Ipc
