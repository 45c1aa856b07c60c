import Xnu.Ipc.Grow

namespace Xnu.Ipc

/-! The operations of `ipc_entry.c` on a whole space: the table sizes of
`ipc_table_entries`, the invariant of a space, and what `ipc_entry_grow_table`,
`ipc_entry_alloc_name`, `ipc_entry_dealloc` and a run of claims do to it. -/

/-- The contract of `ipc_table_entries` stated in `ipc_table.h`: at least two
sizes, strictly increasing but for the last, which repeats the one before it,
all at most `MACH_PORT_INDEX(MACH_PORT_DEAD)`, the first non-zero. -/
structure IpcTableSizes (its : List Nat) : Prop where
  two : 2 ≤ its.length
  first : ∀ a : Nat, its[0]? = some a → 0 < a
  increasing : ∀ (i j a b : Nat), i < j → j + 1 < its.length → its[i]? = some a → its[j]? = some b →
    a < b
  last : its[its.length - 2]? = its[its.length - 1]?
  bounded : ∀ (i a : Nat), its[i]? = some a → a ≤ 0xFFFFFF

/-- The table of a space has the size `ipc_table_entries[is_table_next - 1]`,
and `is_table_next` is not past the last size. -/
structure IpcSpace.Sized (its : List Nat) (space : IpcSpace) : Prop where
  next_pos : 0 < space.isTableNext
  next_lt : space.isTableNext < its.length
  size : its[space.isTableNext - 1]? = some space.isTable.length

/-- A space as `ipc_entry.c` keeps it: sized by `ipc_table_entries`, with the
free list `free`. -/
structure IpcSpace.Valid (its : List Nat) (space : IpcSpace) (free : List Nat) : Prop where
  sized : space.Sized its
  freeList : space.FreeList free

theorem IpcSpace.Sized.of_sameSize {its : List Nat} {space space' : IpcSpace} (sized : space.Sized its)
    (same : space.SameSize space') : space'.Sized its :=
  ⟨same.next ▸ sized.next_pos, same.next ▸ sized.next_lt, by rw [same.next, same.length]; exact sized.size⟩

namespace IpcTableSizes

variable {its : List Nat}

theorem max_eq (sizes : IpcTableSizes its) :
    its[its.length - 1]? = some (ipcTableMaxEntries its) := by
  have nonempty : its ≠ [] := List.ne_nil_of_length_pos (by have := sizes.two; omega)
  rw [ipcTableMaxEntries, List.getLastD_eq_getLast? , List.getLast?_eq_getElem?]
  rw [List.getElem?_eq_getElem (show its.length - 1 < its.length by have := sizes.two; omega),
    Option.getD_some]

/-- Every size is at most the last one. -/
theorem le_max (sizes : IpcTableSizes its) {i a : Nat} (found : its[i]? = some a) :
    a ≤ ipcTableMaxEntries its := by
  have inside : i < its.length := (List.getElem?_eq_some_iff.mp found).1
  have beforeLast := sizes.last
  rw [sizes.max_eq] at beforeLast
  by_cases small : i + 2 ≤ its.length
  · by_cases same : i = its.length - 2
    · subst same
      rw [beforeLast, Option.some.injEq] at found
      omega
    · exact Nat.le_of_lt (sizes.increasing i (its.length - 2) a _ (by omega) (by omega) found beforeLast)
  · have atLast : i = its.length - 1 := by omega
    subst atLast
    rw [sizes.max_eq, Option.some.injEq] at found
    omega

end IpcTableSizes

/-! The search of `ipc_entry_grow_table` for a size holding `target_size`. -/

/-- From `next`, with `psize` the size before it and below `target`, the
search ends at a size of at least `target` that is not the last, or finds the
two equal sizes at the end, which happens only when `target` exceeds
`ipc_table_max_entries()`. -/
theorem ipcTableSearch_spec {its : List Nat} (sizes : IpcTableSizes its) (target : Nat) :
    ∀ (fuel : Nat) {psize next : Nat}, 0 < next → next < its.length → its[next - 1]? = some psize →
      psize < target → its.length - next ≤ fuel →
      (ipcTableSearch its target fuel psize next = some none ∧ ipcTableMaxEntries its < target) ∨
      ∃ n size, ipcTableSearch its target fuel psize next = some (some n) ∧ n + 1 < its.length ∧
        its[n]? = some size ∧ target ≤ size := by
  intro fuel
  induction fuel with
  | zero => intro psize next _ inside _ _ enough; omega
  | succ fuel ih =>
    intro psize next pos inside before below enough
    obtain ⟨size, found⟩ : ∃ size, its[next]? = some size := ⟨_, List.getElem?_eq_getElem inside⟩
    -- Before the last size the sizes grow, so only the last can repeat `psize`.
    have notLast : next + 1 < its.length ∨ psize = ipcTableMaxEntries its ∧ size = psize := by
      by_cases small : next + 1 < its.length
      · exact .inl small
      · have atLast : next = its.length - 1 := by omega
        subst atLast
        have beforeLast := sizes.last
        rw [sizes.max_eq, show its.length - 2 = its.length - 1 - 1 by omega, before] at beforeLast
        rw [sizes.max_eq, Option.some.injEq] at found
        rw [Option.some.injEq] at beforeLast
        exact .inr ⟨beforeLast, by omega⟩
    have grows : next + 1 < its.length → psize < size := fun small =>
      sizes.increasing (next - 1) next psize size (by omega) small before found
    simp only [ipcTableSearch, found]
    rcases notLast with small | ⟨atMax, same⟩
    · rw [if_neg (Nat.ne_of_lt (grows small))]
      split_ifs with more
      · exact ih (by omega) small (by simpa using found) more (by omega)
      · exact .inr ⟨next, size, rfl, small, found, by omega⟩
    · rw [if_pos same.symm]
      exact .inl ⟨rfl, atMax ▸ below⟩

section Grow

variable {its : List Nat} {space : IpcSpace} {free : List Nat}

/-- Growing to `ipc_table_entries[next]`, a larger size that is not the
last. -/
theorem IpcSpace.Valid.growTo_spec (which : Nat → Bool) (valid : space.Valid its free) {next size : Nat}
    (found : its[next]? = some size) (grows : space.isTable.length < size) (notLast : next + 1 < its.length) :
    ∃ grown added, ipcEntryGrowTo its which space next = some (.success, grown) ∧
      (∀ i, i ∈ added ↔ space.isTable.length ≤ i ∧ i < grown.isTable.length) ∧
      grown.Valid its (free ++ added) ∧ grown.isTable.length = size := by
  obtain ⟨grown, added, run, members, freeList, length, -, next'⟩ :=
    valid.freeList.growTo_spec which found grows
  refine ⟨grown, added, run, fun i => by rw [members, length], ⟨⟨by omega, by omega, ?_⟩, freeList⟩, length⟩
  rw [next', Nat.add_sub_cancel, found, length]

/-- `ipc_entry_grow_table` on a valid space returns, and either grows the table
with the free list gaining exactly the new slots, or returns `KERN_NO_SPACE`
and changes nothing. A `target_size` of at most `ipc_table_max_entries()` is
always reached, and a larger one never. -/
theorem IpcSpace.Valid.growTable_spec (sizes : IpcTableSizes its) (valid : space.Valid its free)
    (which : Nat → Bool) (target : Option Nat) :
    ∃ kr grown, ipcEntryGrowTable its which space target = some (kr, grown) ∧
      (kr = .noSpace ∧ grown = space ∨ kr = .success ∧ ∃ added,
        (∀ i, i ∈ added ↔ space.isTable.length ≤ i ∧ i < grown.isTable.length) ∧
        grown.Valid its (free ++ added)) ∧
      ∀ t, target = some t → (t ≤ ipcTableMaxEntries its → kr = .success ∧ t ≤ grown.isTable.length) ∧
        (ipcTableMaxEntries its < t → kr = .noSpace ∧ grown = space) := by
  have sized := valid.sized
  have unchanged : space.Valid its (free ++ []) := by rw [List.append_nil]; exact valid
  have osizeMax : space.isTable.length ≤ ipcTableMaxEntries its := sizes.le_max sized.size
  cases target with
  | none =>
    obtain ⟨size, found⟩ : ∃ size, its[space.isTableNext]? = some size :=
      ⟨_, List.getElem?_eq_getElem sized.next_lt⟩
    by_cases same : space.isTable.length = size
    · refine ⟨.noSpace, space, ?_, .inl ⟨rfl, rfl⟩, fun t none => nomatch none⟩
      simp [ipcEntryGrowTable, ipcEntryGrowTo, found, same]
    · -- Only the last size repeats the one before it, so this one is larger.
      have notLast : space.isTableNext + 1 < its.length := by
        by_contra atLast
        have inside := sized.next_lt
        have beforeLast := sizes.last
        rw [show its.length - 1 = space.isTableNext by omega,
          show its.length - 2 = space.isTableNext - 1 by omega, sized.size, found,
          Option.some.injEq] at beforeLast
        exact same beforeLast
      have grows : space.isTable.length < size :=
        sizes.increasing _ _ _ _ (by have := sized.next_pos; omega) notLast sized.size found
      obtain ⟨grown, added, run, members, grownValid, -⟩ := valid.growTo_spec which found grows notLast
      exact ⟨.success, grown, run, .inr ⟨rfl, added, members, grownValid⟩, fun t none => nomatch none⟩
  | some target =>
    by_cases within : target ≤ space.isTable.length
    · refine ⟨.success, space, by simp [ipcEntryGrowTable, within], .inr ⟨rfl, [], by simp, unchanged⟩,
        fun t same => ?_⟩
      cases same
      exact ⟨fun _ => ⟨rfl, within⟩, fun beyond => by omega⟩
    · have search := ipcTableSearch_spec sizes target its.length sized.next_pos sized.next_lt sized.size
        (by omega) (by omega)
      rcases search with ⟨full, beyond⟩ | ⟨n, size, found, notLast, atN, reaches⟩
      · refine ⟨.noSpace, space, by simp [ipcEntryGrowTable, within, full], .inl ⟨rfl, rfl⟩,
          fun t same => ?_⟩
        cases same
        exact ⟨fun reached => by omega, fun _ => ⟨rfl, rfl⟩⟩
      · obtain ⟨grown, added, run, members, grownValid, length⟩ :=
          valid.growTo_spec which atN (by omega) notLast
        refine ⟨.success, grown, by simp [ipcEntryGrowTable, within, found, run],
          .inr ⟨rfl, added, members, grownValid⟩, fun t same => ?_⟩
        cases same
        have sizeMax := sizes.le_max atN
        exact ⟨fun _ => ⟨rfl, by omega⟩, fun beyond => by omega⟩

end Grow

section AllocName

variable {its : List Nat} {space : IpcSpace} {free : List Nat}

/-- `ipc_entry_alloc_name(name)` on a valid space, with `index` the index of
`name`. It returns in every case: `KERN_NO_SPACE` from `ipc_table_max_entries()`
on; `KERN_FAILURE` for index 0 or a slot in use for another generation; the
slot in use for this generation as it is; and otherwise, growing the table
first if it is too short, the slot taken off the free list. -/
theorem IpcSpace.Valid.allocName_spec (sizes : IpcTableSizes its) (valid : space.Valid its free)
    (which : Nat → Bool) {name : UInt32} {index : Nat} (indexOf : (machPortIndex name).toNat = index) :
    (ipcTableMaxEntries its ≤ index → ipcEntryAllocName its which space name = some (.noSpace, space)) ∧
    (index = 0 → ipcEntryAllocName its which space name = some (.failure, space)) ∧
    (∀ e, space.isTable[index]? = some e → ieBitsType e.ieBits ≠ 0 →
      ipcEntryAllocName its which space name =
        some (if ieBitsGen e.ieBits = machPortGen name then .success else .failure, space)) ∧
    (index ≠ 0 → index < ipcTableMaxEntries its →
      (∀ e, space.isTable[index]? = some e → ieBitsType e.ieBits = 0) →
      ∃ allocated added, ipcEntryAllocName its which space name = some (.success, allocated) ∧
        (∀ i, i ∈ added ↔ space.isTable.length ≤ i ∧ i < allocated.isTable.length) ∧
        index ∈ free ++ added ∧ allocated.Sized its ∧
        allocated.TakenOff index (machPortGen name) ((free ++ added).erase index)) := by
  have sized := valid.sized
  have inv := valid.freeList
  have osizeMax := sizes.le_max sized.size
  have headLt : 0 < space.isTable.length := by
    obtain ⟨head, foundHead, -⟩ := inv.head
    exact (List.getElem?_eq_some_iff.mp foundHead).1
  -- Inside the table the loop makes one pass.
  have inTable : index < space.isTable.length → ipcEntryAllocName its which space name =
      ipcEntryAllocNameInTable space index (machPortGen name) := by
    intro inside
    simp only [ipcEntryAllocName, indexOf, ipcEntryAllocNameLoop, inside, if_true,
      if_neg (show ¬index > ipcTableMaxEntries its by omega)]
  refine ⟨fun atMax => ?_, fun zero => ?_, fun e found inUse => ?_, fun nonzero small none => ?_⟩
  · by_cases beyond : ipcTableMaxEntries its < index
    · simp [ipcEntryAllocName, indexOf, beyond]
    · -- At the largest size itself the growth finds no size to hold `index + 1`.
      have noRoom : ¬index < space.isTable.length := by omega
      obtain ⟨kr, grown, run, -, reach⟩ := valid.growTable_spec sizes which (some (index + 1))
      obtain ⟨rfl, rfl⟩ := (reach (index + 1) rfl).2 (by omega)
      simp [ipcEntryAllocName, indexOf, beyond, ipcEntryAllocNameLoop, run, noRoom]
  · subst zero
    obtain ⟨e, found⟩ : ∃ e, space.isTable[0]? = some e := ⟨_, List.getElem?_eq_getElem headLt⟩
    rw [inTable headLt]
    exact (inv.allocNameInTable_spec _ found).1 rfl
  · have inside := (List.getElem?_eq_some_iff.mp found).1
    rw [inTable inside]
    exact (inv.allocNameInTable_spec _ found).2.1 (inv.ne_zero_of_type found inUse) inUse
  · by_cases inside : index < space.isTable.length
    · obtain ⟨e, found⟩ : ∃ e, space.isTable[index]? = some e := ⟨_, List.getElem?_eq_getElem inside⟩
      obtain ⟨mem, allocated, run, taken, same⟩ :=
        (inv.allocNameInTable_spec _ found).2.2 nonzero (none e found)
      refine ⟨allocated, [], by rw [inTable inside, run], fun i => by simp [same.length],
        by simpa using mem, sized.of_sameSize same, by simpa using taken⟩
    · -- Past the table: grow it to hold `index + 1`, then the index is a new free slot.
      obtain ⟨kr, grown, run, outcome, reach⟩ := valid.growTable_spec sizes which (some (index + 1))
      obtain ⟨rfl, fits⟩ := (reach (index + 1) rfl).1 (by omega)
      obtain ⟨added, members, grownValid⟩ : ∃ added, (∀ i, i ∈ added ↔
          space.isTable.length ≤ i ∧ i < grown.isTable.length) ∧ grown.Valid its (free ++ added) := by
        rcases outcome with ⟨wrong, -⟩ | ⟨-, found⟩
        · cases wrong
        · exact found
      have mem : index ∈ free ++ added := List.mem_append_right _ ((members index).mpr ⟨by omega, by omega⟩)
      obtain ⟨e, found⟩ : ∃ e, grown.isTable[index]? = some e :=
        ⟨_, List.getElem?_eq_getElem (show index < grown.isTable.length by omega)⟩
      have typeZero := (grownValid.freeList.none_iff index e found (Nat.pos_of_ne_zero nonzero)).mp mem
      obtain ⟨-, allocated, runIn, taken, same⟩ :=
        (grownValid.freeList.allocNameInTable_spec _ found).2.2 nonzero typeZero
      refine ⟨allocated, added, ?_, fun i => by rw [same.length]; exact members i, mem,
        grownValid.sized.of_sameSize same, taken⟩
      simp [ipcEntryAllocName, indexOf, show ¬index > ipcTableMaxEntries its by omega,
        ipcEntryAllocNameLoop, inside, run, show index < grown.isTable.length by omega, runIn]

end AllocName

/-- A run of claims, each followed by the caller's write of an entry in use,
no longer than the free list: every claim finds a free slot past 0 and makes
a valid name for it, and the space stays valid. -/
theorem IpcSpace.Valid.claimWrites_spec {its : List Nat} (sizes : IpcTableSizes its) :
    ∀ {space : IpcSpace} {free : List Nat} (writes : List (UInt32 × IpcEntry)), space.Valid its free →
      writes.length ≤ free.length → (∀ w ∈ writes, ieBitsType w.2.ieBits ≠ 0) →
      ∃ final got, ipcEntryClaimWrites space writes = some (final, got) ∧ got.length = writes.length ∧
        (∀ p ∈ got, 0 < p.2 ∧ machPortIndex p.1 = p.2.toUInt32 ∧ machPortValid p.1 = true) ∧
        ∃ free', final.Valid its free'
  | space, free, [], valid, _, _ => ⟨space, [], rfl, rfl, by simp, free, valid⟩
  | space, free, (rollpoint, entry) :: rest, valid, enough, typed => by
    obtain ⟨j, l, rfl⟩ : ∃ j l, free = j :: l := by
      cases free with
      | nil => simp at enough
      | cons j l => exact ⟨j, l, rfl⟩
    obtain ⟨claimed, gen, run, taken, same⟩ := ipcEntryClaim_spec valid.freeList rollpoint
    have entryTyped := typed (rollpoint, entry) List.mem_cons_self
    have writtenValid : (claimed.writeEntry j entry).Valid its l :=
      ⟨(valid.sized.of_sameSize same).of_sameSize (claimed.sameSize_writeEntry j entry),
        taken.written entry entryTyped⟩
    obtain ⟨final, got, runRest, length, names, rest⟩ := claimWrites_spec sizes rest writtenValid
      (by simp at enough; omega) fun w mem => typed w (List.mem_cons_of_mem _ mem)
    -- The slot is past 0 and inside a table of at most `MACH_PORT_INDEX(MACH_PORT_DEAD)` entries.
    have jPos := valid.freeList.pos List.mem_cons_self
    have jLt := valid.freeList.mem_lt List.mem_cons_self
    have tableMax := sizes.bounded _ _ valid.sized.size
    have jToNat : j.toUInt32.toNat = j := by
      rw [Nat.toUInt32_eq, UInt32.toNat_ofNat_of_lt' (by unfold UInt32.size; omega)]
    refine ⟨final, (machPortMake j.toUInt32 gen, j) :: got, by simp [ipcEntryClaimWrites, run, runRest],
      by simp [length], fun p mem => ?_, rest⟩
    rcases List.mem_cons.mp mem with rfl | later
    · exact ⟨jPos, machPortIndex_make gen (by omega),
        machPortValid_make gen (by omega) (by omega)⟩
    · exact names p later

end Xnu.Ipc
