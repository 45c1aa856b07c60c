import Xnu.Ipc.FreeList

namespace Xnu.Ipc

/-! Making a free list: `ipc_space_rand_freelist`, `ipc_space_create`, and the
growth of a table by `ipc_entry_grow_table`, which hangs the new slots, in a
random order, at the end of the old free list. -/

/-- What the loop of `ipc_space_rand_freelist` run from `curr` over the
slots `[bottom, top]` of `table` leaves in `result`: the links go from `curr`
through all of `[bottom, top]` and end there; every slot it wrote holds a
fresh free entry, and no other slot changed. -/
def FreshFreeList (table result : List IpcEntry) (curr bottom top : Nat) : Prop :=
  ∃ l, ChainFrom (IpcEntry.link result) curr l ∧ (∀ i, i ∈ l ↔ bottom ≤ i ∧ i ≤ top) ∧
    result.length = table.length ∧
    (∀ i, i = curr ∨ bottom ≤ i ∧ i ≤ top → ∃ n, result[i]? = some (IpcEntry.free n)) ∧
    (∀ i, i ≠ curr → i < bottom ∨ top < i → result[i]? = table[i]?)

/-- The write after the loop: `curr` ends the list, and `[bottom, top]` is
empty. -/
theorem freshFreeList_last {table : List IpcEntry} {curr bottom top : Nat}
    (currLt : curr < table.length) (empty : top < bottom) :
    FreshFreeList table (table.set curr (IpcEntry.free 0)) curr bottom top := by
  refine ⟨[], .last (IpcEntry.link_set_self _ currLt), fun i => ?_, List.length_set,
    fun i covered => ?_, fun i ne _ => List.getElem?_set_ne (Ne.symm ne)⟩
  · simp only [List.not_mem_nil, false_iff, not_and, not_le]
    omega
  · have atCurr : i = curr := covered.resolve_right (by omega)
    subst atCurr
    exact ⟨0, List.getElem?_set_self currLt⟩

/-- One pass of the loop: `curr` is linked to `next`, taken from one end of
`[bottom, top]`, and the loop goes on from `next` over the rest. -/
theorem freshFreeList_cons {table result : List IpcEntry} {curr next bottom top bottom' top' : Nat}
    (currLt : curr < table.length) (nextPos : 0 < next) (currOut : curr < bottom ∨ top < curr)
    (split : ∀ i, (bottom ≤ i ∧ i ≤ top) ↔ (i = next ∨ bottom' ≤ i ∧ i ≤ top'))
    (nextOut : next < bottom' ∨ top' < next)
    (rest : FreshFreeList (table.set curr (IpcEntry.free next)) result next bottom' top') :
    FreshFreeList table result curr bottom top := by
  obtain ⟨l, chain, members, length, fresh, frame⟩ := rest
  have nextIn := (split next).mpr (.inl rfl)
  have atCurr := frame curr (by omega) (by have := split curr; omega)
  rw [List.getElem?_set_self currLt] at atCurr
  refine ⟨next :: l, .next (by simp [IpcEntry.link, atCurr, IpcEntry.free]) (by omega) chain,
    fun i => ?_, by simpa using length, fun i covered => ?_, fun i ne out => ?_⟩
  · rw [List.mem_cons, members, split]
  · rcases covered with rfl | range
    · exact ⟨next, atCurr⟩
    · exact fresh i ((split i).mp range)
  · have outside : i ≠ next ∧ (i < bottom' ∨ top' < i) := by have := split i; omega
    rw [frame i outside.1 outside.2, List.getElem?_set_ne (Ne.symm ne)]

/-- The loop of `ipc_space_rand_freelist`, from `curr` over the slots
`[bottom, top]`: whatever bits `which` draws, it links `curr` through all of
them and ends the list there. -/
theorem ipcSpaceRandFreelistLoop_spec (which : Nat → Bool) {table : List IpcEntry}
    {fuel k curr bottom top : Nat} (currLt : curr < table.length) (topLt : top < table.length)
    (currOut : curr < bottom ∨ top < curr) (bottomPos : 0 < bottom) (enough : top + 1 - bottom ≤ fuel) :
    FreshFreeList table (ipcSpaceRandFreelistLoop which table fuel k curr bottom top) curr bottom top := by
  induction fuel generalizing table k curr bottom top with
  | zero => exact freshFreeList_last currLt (by omega)
  | succ fuel ih =>
    unfold ipcSpaceRandFreelistLoop
    by_cases inside : bottom ≤ top
    · rw [if_pos inside]
      split
      · -- `which k`: the next slot is `top`, and the range shrinks from above.
        have rest : FreshFreeList (table.set curr (IpcEntry.free top))
            (ipcSpaceRandFreelistLoop which (table.set curr (IpcEntry.free top)) fuel (k + 1) top bottom
              (top - 1)) top bottom (top - 1) :=
          ih (by simpa using topLt) (by simpa using Nat.lt_of_le_of_lt (Nat.sub_le top 1) topLt)
            (.inr (by omega)) bottomPos (by omega)
        exact freshFreeList_cons currLt (by omega) currOut (fun i => by omega) (.inr (by omega)) rest
      · -- Otherwise the next slot is `bottom`, and the range shrinks from below.
        have rest : FreshFreeList (table.set curr (IpcEntry.free bottom))
            (ipcSpaceRandFreelistLoop which (table.set curr (IpcEntry.free bottom)) fuel (k + 1) bottom
              (bottom + 1) top) bottom (bottom + 1) top :=
          ih (by simpa using Nat.lt_of_le_of_lt inside topLt) (by simpa using topLt) (.inl (by omega))
            (by omega) (by omega)
        exact freshFreeList_cons currLt bottomPos currOut (fun i => by omega) (.inl (by omega)) rest
    · rw [if_neg inside]
      exact freshFreeList_last currLt (by omega)

/-- `ipc_space_create` from a table size of at least one entry: the free
list runs through every slot past 0. -/
theorem ipcSpaceCreate_spec (which : Nat → Bool) {its : List Nat} {initial size : Nat}
    (found : its[initial]? = some size) (pos : 0 < size) :
    ∃ space free, ipcSpaceCreate its which initial = some space ∧ space.FreeList free ∧
      (∀ i, i ∈ free ↔ 0 < i ∧ i < size) ∧ space.isTable.length = size ∧
      space.isTableHashed = 0 ∧ space.isTableNext = initial + 1 := by
  have fresh : FreshFreeList (List.replicate size ⟨none, 0, 0⟩)
      (ipcSpaceRandFreelistLoop which (List.replicate size ⟨none, 0, 0⟩) (size - 0) 0 0 (0 + 1) (size - 1))
      0 (0 + 1) (size - 1) :=
    ipcSpaceRandFreelistLoop_spec which (by simpa using pos) (by simp; omega) (.inl (by omega))
      (by omega) (by omega)
  obtain ⟨l, chain, members, length, written, -⟩ := fresh
  set table := ipcSpaceRandFreelistLoop which (List.replicate size ⟨none, 0, 0⟩) (size - 0) 0 0 (0 + 1)
    (size - 1) with tableEq
  rw [List.length_replicate] at length
  have members' : ∀ i, i ∈ l ↔ 0 < i ∧ i < size := fun i => by rw [members]; omega
  -- Every slot holds a fresh free entry; slot 0 then gets generation 0.
  have slot : ∀ i e, (table.modify 0 fun e => { e with ieBits := 0 })[i]? = some e → 0 < i →
      ∃ n, e = IpcEntry.free n := by
    intro i e found' pos'
    rw [List.getElem?_modify_ne _ _ (Nat.ne_of_lt pos')] at found'
    have inside : i < size := length ▸ (List.getElem?_eq_some_iff.mp found').1
    obtain ⟨n, atI⟩ := written i (.inr ⟨pos', by omega⟩)
    rw [atI, Option.some.injEq] at found'
    exact ⟨n, found'.symm⟩
  refine ⟨⟨table.modify 0 fun e => { e with ieBits := 0 }, size - 1, 0, initial + 1⟩, l,
    by simp [ipcSpaceCreate, found, ipcSpaceRandFreelist, tableEq], ⟨?_, ?_, ?_, ?_, ?_⟩, members',
    by simpa using length, rfl, rfl⟩
  · exact chain.frame (IpcEntry.link_modify_bits 0) fun k _ => IpcEntry.link_modify_bits 0
  · intro i e found' pos'
    obtain ⟨n, rfl⟩ := slot i e found' pos'
    have inside : i < size := by simpa [length] using (List.getElem?_eq_some_iff.mp found').1
    simp only [members', ieBitsType_free, iff_true]
    exact ⟨pos', inside⟩
  · intro i mem e found'
    obtain ⟨n, rfl⟩ := slot i e found' ((members' i).mp mem).1
    rfl
  · exact (chain.length_eq (show ∀ k, k ∈ l ↔ 1 ≤ k ∧ k < size from fun k => by
      rw [members]; omega)).symm
  · obtain ⟨n, atZero⟩ := written 0 (.inl rfl)
    have zeroType : ieBitsType 0 = 0 := by decide
    have zeroGen : ieBitsGen 0 = 0 := by decide
    refine ⟨{ IpcEntry.free n with ieBits := 0 }, ?_, rfl, zeroType, zeroGen⟩
    rw [List.getElem?_modify_eq, atZero]
    rfl

/-- The walk of `ipc_entry_grow_table` along a segment of free entries that
stay inside the old table stops at the segment's end, where the links reach
0. -/
theorem ipcEntryGrowFreeEnd_segment {table : List IpcEntry} {osize sanity i p : Nat} {l : List Nat}
    (segment : Segment (IpcEntry.link table) i l p) (stop : IpcEntry.link table p = some 0)
    (noObject : ∀ k ∈ i :: l, ∀ e, table[k]? = some e → e.ieObject = none)
    (small : ∀ k ∈ l, k < osize) (enough : l.length ≤ sanity) :
    ipcEntryGrowFreeEnd table osize sanity i = p := by
  induction segment generalizing sanity with
  | refl =>
    obtain ⟨e, found, next⟩ := IpcEntry.link_eq_some.mp stop
    cases sanity with
    | zero => rfl
    | succ sanity => simp [ipcEntryGrowFreeEnd, found, next, noObject _ List.mem_cons_self e found]
  | @next i j p l step nonzero _ ih =>
    obtain ⟨e, found, next⟩ := IpcEntry.link_eq_some.mp step
    obtain ⟨sanity, rfl⟩ : ∃ s, sanity = s + 1 := ⟨sanity - 1, by simp at enough; omega⟩
    have jSmall : j < osize := small j List.mem_cons_self
    have rest : ipcEntryGrowFreeEnd table osize sanity j = p :=
      ih stop (fun k mem => noObject k (List.mem_cons_of_mem i mem))
        (fun k mem => small k (List.mem_cons_of_mem j mem)) (by simp at enough; omega)
    simp [ipcEntryGrowFreeEnd, found, next, noObject _ List.mem_cons_self e found, nonzero,
      Nat.not_le.mpr jSmall, rest]

section Grow

variable {space : IpcSpace} {free : List Nat}

/-- The table `ipc_entry_grow_table` builds, before the old free list is
linked to the new slots: the old entries, then `[osize, size)` linked from
`osize` in a random order. -/
theorem IpcSpace.FreeList.grow_fresh (which : Nat → Bool) (inv : space.FreeList free) {size : Nat}
    (grows : space.isTable.length < size) :
    FreshFreeList (space.isTable ++ List.replicate (size - space.isTable.length) (IpcEntry.mk none 0 0))
      (ipcSpaceRandFreelist which (space.isTable ++ List.replicate (size - space.isTable.length) (IpcEntry.mk none 0 0))
        space.isTable.length size)
      space.isTable.length (space.isTable.length + 1) (size - 1) := by
  obtain ⟨head, foundHead, -⟩ := inv.head
  have osizePos : 0 < space.isTable.length := (List.getElem?_eq_some_iff.mp foundHead).1
  have padded : (space.isTable ++ List.replicate (size - space.isTable.length) (IpcEntry.mk none 0 0)).length = size := by
    simp only [List.length_append, List.length_replicate]
    omega
  rw [ipcSpaceRandFreelist, if_neg (Nat.ne_of_gt osizePos)]
  exact ipcSpaceRandFreelistLoop_spec which (by omega) (by omega) (.inl (by omega)) (by omega) (by omega)

/-- The grown table: the old free list, its last node `p` now linked to
`osize`, then the new slots. -/
theorem IpcSpace.FreeList.grow_link (inv : space.FreeList free) (n : Nat) {size p : Nat}
    {table : List IpcEntry} (grows : space.isTable.length < size)
    (fresh : FreshFreeList (space.isTable ++ List.replicate (size - space.isTable.length) (IpcEntry.mk none 0 0))
      table space.isTable.length (space.isTable.length + 1) (size - 1))
    (segment : Segment (IpcEntry.link space.isTable) 0 free p) :
    ∃ added, (∀ i, i ∈ added ↔ space.isTable.length ≤ i ∧ i < size) ∧
      IpcSpace.FreeList { space with
        isTable := table.modify p fun e => { e with ieNext := space.isTable.length },
        isTableFree := space.isTableFree + (size - space.isTable.length), isTableNext := n }
        (free ++ added) := by
  obtain ⟨l, chain, members, length, written, frame⟩ := fresh
  have tableLen : table.length = size := by
    rw [length, List.length_append, List.length_replicate]
    omega
  have nodup := inv.chain.cons_nodup
  have endIn := segment.end_mem
  -- The old slots keep their entries in `table`.
  have old : ∀ k, k < space.isTable.length → table[k]? = space.isTable[k]? := by
    intro k small
    rw [frame k (by omega) (by omega), List.getElem?_append_left small]
  have oldLt : ∀ k ∈ 0 :: free, k < space.isTable.length := by
    intro k mem
    rcases List.mem_cons.mp mem with rfl | inFree
    · obtain ⟨head, foundHead, -⟩ := inv.head
      exact (List.getElem?_eq_some_iff.mp foundHead).1
    · exact inv.mem_lt inFree
  have pLt := oldLt p endIn
  obtain ⟨pred, foundPred⟩ : ∃ pred, space.isTable[p]? = some pred :=
    ⟨_, List.getElem?_eq_getElem pLt⟩
  have untouched : ∀ k, k ≠ p →
      (table.modify p fun e => { e with ieNext := space.isTable.length })[k]? = table[k]? :=
    fun k ne => List.getElem?_modify_ne _ _ (Ne.symm ne)
  have atP : (table.modify p fun e => { e with ieNext := space.isTable.length })[p]? =
      some { pred with ieNext := space.isTable.length } := by
    rw [List.getElem?_modify_eq, old p pLt, foundPred]
    rfl
  refine ⟨space.isTable.length :: l, fun i => by rw [List.mem_cons, members]; omega, ?_⟩
  -- Each slot of the grown table is an old one, with at most its link changed, or a fresh one.
  have slot : ∀ i e, (table.modify p fun e => { e with ieNext := space.isTable.length })[i]? = some e →
      (i < space.isTable.length ∧ ∃ e₀, space.isTable[i]? = some e₀ ∧ e₀.ieObject = e.ieObject ∧
        e₀.ieBits = e.ieBits) ∨ (space.isTable.length ≤ i ∧ i < size ∧ ∃ n, e = IpcEntry.free n) := by
    intro i e found
    by_cases atI : i = p
    · subst atI
      rw [atP, Option.some.injEq] at found
      exact .inl ⟨pLt, pred, foundPred, by rw [← found], by rw [← found]⟩
    · rw [untouched i atI] at found
      have inside : i < size := by
        simpa [tableLen] using (List.getElem?_eq_some_iff.mp found).1
      by_cases small : i < space.isTable.length
      · rw [old i small] at found
        exact .inl ⟨small, e, found, rfl, rfl⟩
      · obtain ⟨n, atI'⟩ := written i (by omega)
        rw [atI', Option.some.injEq] at found
        exact .inr ⟨by omega, inside, n, found.symm⟩
  have memIff : ∀ i, (i ∈ free ++ space.isTable.length :: l ↔
      i ∈ free ∨ space.isTable.length ≤ i ∧ i < size) := by
    intro i
    rw [List.mem_append, List.mem_cons, members]
    constructor
    · rintro (inFree | rfl | ⟨lo, hi⟩)
      · exact .inl inFree
      · exact .inr ⟨le_refl _, grows⟩
      · exact .inr ⟨by omega, by omega⟩
    · rintro (inFree | ⟨lo, hi⟩)
      · exact .inl inFree
      · by_cases atStart : i = space.isTable.length
        · exact .inr (.inl atStart)
        · exact .inr (.inr ⟨by omega, by omega⟩)
  constructor
  · refine Segment.chain (segment.frame fun k mem => ?_) (.next ?_ (by omega) (chain.frame ?_ ?_))
    · have kNe : k ≠ p := fun eq => segment.end_not_mem_dropLast nodup (eq ▸ mem)
      have kLt := oldLt k (List.dropLast_subset _ mem)
      simp only [IpcEntry.link, untouched k kNe, old k kLt]
    · simp [IpcEntry.link, atP]
    · simp only [IpcEntry.link, untouched _ (Nat.ne_of_gt pLt)]
    · intro k mem
      have kOut : k ≠ p := by have := (members k).mp mem; omega
      simp only [IpcEntry.link, untouched k kOut]
  · intro i e found pos
    rw [memIff]
    rcases slot i e found with ⟨small, e₀, found₀, -, sameBits⟩ | ⟨big, inside, n, rfl⟩
    · rw [← sameBits, ← inv.none_iff i e₀ found₀ pos]
      simp only [Nat.not_le.mpr small, false_and, or_false]
    · simp only [ieBitsType_free, iff_true]
      exact .inr ⟨big, inside⟩
  · intro i mem e found
    rcases slot i e found with ⟨small, e₀, found₀, sameObject, -⟩ | ⟨-, -, n, rfl⟩
    · have inFree : i ∈ free := ((memIff i).mp mem).resolve_right (by omega)
      rw [← sameObject]
      exact inv.object i inFree e₀ found₀
    · rfl
  · have added : (space.isTable.length :: l).length = size - space.isTable.length := by
      rw [List.length_cons, chain.length_eq (show ∀ k, k ∈ l ↔ space.isTable.length + 1 ≤ k ∧ k < size
        from fun k => by rw [members]; omega)]
      omega
    simp only [inv.count, List.length_append, added]
  · obtain ⟨head, foundHead, headObject, headType, headGen⟩ := inv.head
    have headLt := oldLt 0 List.mem_cons_self
    have found := List.getElem?_eq_getElem (show 0 < (table.modify p fun e =>
      { e with ieNext := space.isTable.length }).length by simp [tableLen]; omega)
    rcases slot 0 _ found with ⟨-, e₀, found₀, sameObject, sameBits⟩ | ⟨big, -⟩
    · rw [foundHead, Option.some.injEq] at found₀
      subst found₀
      exact ⟨_, found, sameObject ▸ headObject, sameBits ▸ headType, sameBits ▸ headGen⟩
    · omega

/-- The walk of `ipc_entry_grow_table` over the new table finds the last node
`p` of the old free list, whose link is 0. -/
theorem IpcSpace.FreeList.growFreeEnd (which : Nat → Bool) (inv : space.FreeList free) {size : Nat}
    (grows : space.isTable.length < size) :
    ∃ p, Segment (IpcEntry.link space.isTable) 0 free p ∧ IpcEntry.link space.isTable p = some 0 ∧
      ipcEntryGrowFreeEnd (ipcSpaceRandFreelist which
        (space.isTable ++ List.replicate (size - space.isTable.length) (IpcEntry.mk none 0 0))
        space.isTable.length size) space.isTable.length space.isTable.length 0 = p := by
  set table := ipcSpaceRandFreelist which
    (space.isTable ++ List.replicate (size - space.isTable.length) (IpcEntry.mk none 0 0)) space.isTable.length size
    with tableEq
  obtain ⟨p, segment, last⟩ : ∃ p, Segment (IpcEntry.link space.isTable) 0 free p ∧
      ChainFrom (IpcEntry.link space.isTable) p [] :=
    ChainFrom.split (by rw [List.append_nil]; exact inv.chain)
  have stop : IpcEntry.link space.isTable p = some 0 := by
    cases last with
    | last stop => exact stop
  obtain ⟨l, -, -, -, -, frame⟩ := inv.grow_fresh which grows
  have old : ∀ k, k < space.isTable.length → table[k]? = space.isTable[k]? := by
    intro k small
    rw [frame k (by omega) (by omega), List.getElem?_append_left small]
  have oldLt : ∀ k ∈ 0 :: free, k < space.isTable.length := by
    intro k mem
    rcases List.mem_cons.mp mem with rfl | inFree
    · obtain ⟨head, foundHead, -⟩ := inv.head
      exact (List.getElem?_eq_some_iff.mp foundHead).1
    · exact inv.mem_lt inFree
  have linkOld : ∀ k ∈ 0 :: free, IpcEntry.link table k = IpcEntry.link space.isTable k :=
    fun k mem => by simp only [IpcEntry.link, old k (oldLt k mem)]
  refine ⟨p, segment, stop, ipcEntryGrowFreeEnd_segment
    (segment.frame fun k mem => linkOld k (List.dropLast_subset _ mem))
    ((linkOld p segment.end_mem).trans stop) (fun k mem e found' => ?_)
    (fun k mem => inv.mem_lt mem) (Nat.le_of_lt inv.length_lt)⟩
  rw [old k (oldLt k mem)] at found'
  rcases List.mem_cons.mp mem with rfl | inFree
  · obtain ⟨head, foundHead, headObject, -⟩ := inv.head
    rw [foundHead, Option.some.injEq] at found'
    exact found' ▸ headObject
  · exact inv.object k inFree e found'

/-- `ipc_entry_grow_table` growing to `ipc_table_entries[next]`, of `size`
entries past the current table: it succeeds, and the free list gains exactly
the new slots, hung after the old ones. -/
theorem IpcSpace.FreeList.growTo_spec (which : Nat → Bool) (inv : space.FreeList free) {its : List Nat}
    {next size : Nat} (found : its[next]? = some size) (grows : space.isTable.length < size) :
    ∃ grown added, ipcEntryGrowTo its which space next = some (.success, grown) ∧
      (∀ i, i ∈ added ↔ space.isTable.length ≤ i ∧ i < size) ∧ grown.FreeList (free ++ added) ∧
      grown.isTable.length = size ∧ grown.isTableHashed = space.isTableHashed ∧
      grown.isTableNext = next + 1 := by
  obtain ⟨p, segment, -, walk⟩ := inv.growFreeEnd which grows
  obtain ⟨added, members, grownInv⟩ := inv.grow_link (next + 1) grows (inv.grow_fresh which grows) segment
  obtain ⟨l, -, -, length, -, -⟩ := inv.grow_fresh which grows
  refine ⟨_, added, ?_, members, grownInv, ?_, rfl, rfl⟩
  · simp only [ipcEntryGrowTo, found, if_neg (Nat.ne_of_lt grows), walk]
  · rw [List.length_modify, length, List.length_append, List.length_replicate]
    omega

end Grow

end Xnu.Ipc
