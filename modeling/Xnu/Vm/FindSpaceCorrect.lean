import Xnu.Vm.FindSpace
import Xnu.Lib.Align

namespace Xnu.Vm

/-! What `vm_map_find_space` finds. Below every wrap of its sums, the hole
search hands out the lowest aligned place of any hole for the entry and its
guard pages, and the backward search of `VM_MAP_FIND_LAST_FREE` a range inside
the map that meets no entry. A back guard page is added to the size unchecked,
so a size within a page of `2^64` wraps to a small one and the search succeeds
with a range much smaller than was asked for. -/

/-- The bytes a guard page takes: `PAGE_SIZE` when it is asked for. -/
def guardPage (pageSize : UInt64) (guard : Bool) : Nat := if guard then pageSize.toNat else 0

/-- The lowest address of `hole` the search can hand out: past the front
guard page, rounded up to `align`. -/
def usableStart (pageSize : UInt64) (align : Nat) (guardBefore : Bool) (hole : VmRange) : Nat :=
  alignUp align (hole.vmeStart.toNat + guardPage pageSize guardBefore)

/-- `usable` is a place in `hole` for `size` bytes: aligned, past `before`
bytes of guard, inside the hole and below `max_offset`. -/
structure HoleFit (maxOffset align before size : Nat) (hole : VmRange) (usable : Nat) : Prop where
  aligned : usable % align = 0
  guarded : hole.vmeStart.toNat + before ≤ usable
  inHole : usable + size ≤ hole.vmeEnd.toNat
  inMap : usable + size ≤ maxOffset

/-- The places any of `holes` has for `size` bytes. -/
def fitSet (maxOffset align before size : Nat) (holes : List VmRange) : Set Nat :=
  {usable | ∃ hole ∈ holes, HoleFit maxOffset align before size hole usable}

theorem fitSet_nil (maxOffset align before size : Nat) : fitSet maxOffset align before size [] = ∅ := by
  simp [fitSet]

theorem fitSet_cons (maxOffset align before size : Nat) (hole : VmRange) (rest : List VmRange) :
    fitSet maxOffset align before size (hole :: rest) =
      {usable | HoleFit maxOffset align before size hole usable} ∪ fitSet maxOffset align before size rest := by
  ext usable
  simp [fitSet]

/-- A place in `other`, a hole that starts no lower than `hole`, is at or above
the usable start of `hole`. -/
theorem usableStart_le_of_fit {maxOffset size : Nat} {pageSize : UInt64} {k : Nat} {guardBefore : Bool}
    {hole other : VmRange} (later : hole.vmeStart.toNat ≤ other.vmeStart.toNat) {usable : Nat}
    (fit : HoleFit maxOffset (2 ^ k) (guardPage pageSize guardBefore) size other usable) :
    usableStart pageSize (2 ^ k) guardBefore hole ≤ usable := by
  have guarded := fit.guarded
  exact alignUp_le (Nat.two_pow_pos k) (by omega) fit.aligned

section Holes

variable {maxOffset pageSize size mask : UInt64} {guardBefore : Bool} {k : Nat}
  (isMask : mask.toNat = 2 ^ k - 1)
  (noWrap : maxOffset.toNat + pageSize.toNat + mask.toNat + size.toNat < 2 ^ 64)
include isMask noWrap

/-- One hole of the search, below every wrap: it is taken when `size` bytes
from its usable start fit in it, and the search stops when they run past
`max_offset`. -/
theorem findSpaceHoles_cons (hole : VmRange) (rest : List VmRange) (inMap : hole.vmeStart ≤ maxOffset) :
    findSpaceHoles maxOffset pageSize size mask guardBefore (hole :: rest) =
      if maxOffset.toNat < usableStart pageSize (2 ^ k) guardBefore hole + size.toNat then none
      else if usableStart pageSize (2 ^ k) guardBefore hole + size.toNat ≤ hole.vmeEnd.toNat then
        some (UInt64.ofNat (usableStart pageSize (2 ^ k) guardBefore hole),
          UInt64.ofNat (usableStart pageSize (2 ^ k) guardBefore hole + size.toNat))
      else findSpaceHoles maxOffset pageSize size mask guardBefore rest := by
  have startLe : hole.vmeStart.toNat ≤ maxOffset.toNat := UInt64.le_iff_toNat_le.mp inMap
  have startNat : (if guardBefore then hole.vmeStart + pageSize else hole.vmeStart).toNat =
      hole.vmeStart.toNat + guardPage pageSize guardBefore := by
    cases guardBefore
    · simp [guardPage]
    · simp only [if_true, guardPage, UInt64.toNat_add]
      exact Nat.mod_eq_of_lt (by omega)
  have roundNat := UInt64.toNat_alignUp isMask (if guardBefore then hole.vmeStart + pageSize else hole.vmeStart)
    (by rw [startNat]; cases guardBefore <;> simp [guardPage] <;> omega)
  rw [startNat, ← usableStart] at roundNat
  have above := le_alignUp (Nat.two_pow_pos k) (hole.vmeStart.toNat + guardPage pageSize guardBefore)
  have below := alignUp_le_add (2 ^ k) (hole.vmeStart.toNat + guardPage pageSize guardBefore)
  rw [← usableStart] at above below
  have guardLe : guardPage pageSize guardBefore ≤ pageSize.toNat := by
    cases guardBefore <;> simp [guardPage]
  have roundEq : ((if guardBefore then hole.vmeStart + pageSize else hole.vmeStart) + mask) &&& ~~~mask =
      UInt64.ofNat (usableStart pageSize (2 ^ k) guardBefore hole) := by
    apply UInt64.toNat_inj.mp
    rw [roundNat, UInt64.toNat_ofNat_of_lt' (by rw [UInt64.size]; omega)]
  have finishNat : (UInt64.ofNat (usableStart pageSize (2 ^ k) guardBefore hole) + size).toNat =
      usableStart pageSize (2 ^ k) guardBefore hole + size.toNat := by
    rw [UInt64.toNat_add, UInt64.toNat_ofNat_of_lt' (by rw [UInt64.size]; omega), Nat.mod_eq_of_lt (by omega)]
  have usableNat : (UInt64.ofNat (usableStart pageSize (2 ^ k) guardBefore hole)).toNat =
      usableStart pageSize (2 ^ k) guardBefore hole :=
    UInt64.toNat_ofNat_of_lt' (by rw [UInt64.size]; omega)
  have finishEq : UInt64.ofNat (usableStart pageSize (2 ^ k) guardBefore hole) + size =
      UInt64.ofNat (usableStart pageSize (2 ^ k) guardBefore hole + size.toNat) := by
    apply UInt64.toNat_inj.mp
    rw [finishNat, UInt64.toNat_ofNat_of_lt' (by rw [UInt64.size]; omega)]
  -- the rounding never goes back, and the end never wraps
  have notBack : ¬ UInt64.ofNat (usableStart pageSize (2 ^ k) guardBefore hole) <
      if guardBefore then hole.vmeStart + pageSize else hole.vmeStart := by
    rw [UInt64.lt_iff_toNat_lt, usableNat, startNat]
    omega
  have tooFar : (UInt64.ofNat (usableStart pageSize (2 ^ k) guardBefore hole) + size > maxOffset ∨
      UInt64.ofNat (usableStart pageSize (2 ^ k) guardBefore hole) + size <
        UInt64.ofNat (usableStart pageSize (2 ^ k) guardBefore hole)) ↔
      maxOffset.toNat < usableStart pageSize (2 ^ k) guardBefore hole + size.toNat := by
    rw [GT.gt, UInt64.lt_iff_toNat_lt, UInt64.lt_iff_toNat_lt, usableNat, finishNat]
    omega
  have fits : hole.vmeEnd ≥ UInt64.ofNat (usableStart pageSize (2 ^ k) guardBefore hole) + size ↔
      usableStart pageSize (2 ^ k) guardBefore hole + size.toNat ≤ hole.vmeEnd.toNat := by
    rw [GE.ge, UInt64.le_iff_toNat_le, finishNat]
  simp only [findSpaceHoles, roundEq, if_neg notBack]
  simp only [tooFar, fits]
  rw [finishEq]

/-- The hole search, below every wrap, on holes in address order inside the
map: it finds the lowest place any hole has for `size` bytes, or there is
none. -/
theorem findSpaceHoles_least (holes : List VmRange)
    (sorted : holes.Pairwise fun a b => a.vmeStart ≤ b.vmeStart)
    (inMap : ∀ hole ∈ holes, hole.vmeStart ≤ maxOffset) :
    match findSpaceHoles maxOffset pageSize size mask guardBefore holes with
    | some (start, finish) =>
      IsLeast (fitSet maxOffset.toNat (2 ^ k) (guardPage pageSize guardBefore) size.toNat holes) start.toNat ∧
        finish.toNat = start.toNat + size.toNat
    | none => fitSet maxOffset.toNat (2 ^ k) (guardPage pageSize guardBefore) size.toNat holes = ∅ := by
  induction holes with
  | nil => simp [findSpaceHoles, fitSet_nil]
  | cons hole rest ih =>
    have later : ∀ other ∈ rest, hole.vmeStart.toNat ≤ other.vmeStart.toNat := fun other member =>
      UInt64.le_iff_toNat_le.mp (List.rel_of_pairwise_cons sorted member)
    -- no place in this hole or a later one is below the usable start of this one
    have least : ∀ usable ∈ fitSet maxOffset.toNat (2 ^ k) (guardPage pageSize guardBefore) size.toNat
        (hole :: rest), usableStart pageSize (2 ^ k) guardBefore hole ≤ usable := by
      rintro usable ⟨other, member, fit⟩
      rcases List.mem_cons.mp member with rfl | after
      · exact usableStart_le_of_fit (le_refl _) fit
      · exact usableStart_le_of_fit (later other after) fit
    have startLe : hole.vmeStart.toNat ≤ maxOffset.toNat :=
      UInt64.le_iff_toNat_le.mp (inMap hole List.mem_cons_self)
    have guardLe : guardPage pageSize guardBefore ≤ pageSize.toNat := by
      cases guardBefore <;> simp [guardPage]
    have below := alignUp_le_add (2 ^ k) (hole.vmeStart.toNat + guardPage pageSize guardBefore)
    rw [← usableStart] at below
    have usableNat : (UInt64.ofNat (usableStart pageSize (2 ^ k) guardBefore hole)).toNat =
        usableStart pageSize (2 ^ k) guardBefore hole :=
      UInt64.toNat_ofNat_of_lt' (by rw [UInt64.size]; omega)
    rw [findSpaceHoles_cons isMask noWrap hole rest (inMap hole List.mem_cons_self)]
    split_ifs with past fitsHere
    · -- the usable start of this hole is already too high for every hole
      apply Set.eq_empty_of_forall_notMem
      intro usable member
      have low := least usable member
      obtain ⟨other, _, fit⟩ := member
      have high := fit.inMap
      omega
    · dsimp only
      rw [usableNat]
      refine ⟨⟨⟨hole, List.mem_cons_self, ?_⟩, least⟩, ?_⟩
      · exact ⟨alignUp_mod _, le_alignUp (Nat.two_pow_pos k) _, fitsHere, Nat.le_of_not_lt past⟩
      · rw [UInt64.toNat_ofNat_of_lt' (by rw [UInt64.size]; omega)]
    · -- nothing fits in this hole, so the places are those of the rest
      have none : fitSet maxOffset.toNat (2 ^ k) (guardPage pageSize guardBefore) size.toNat (hole :: rest) =
          fitSet maxOffset.toNat (2 ^ k) (guardPage pageSize guardBefore) size.toNat rest := by
        rw [fitSet_cons, Set.union_eq_right]
        intro usable fit
        have low := least usable ⟨hole, List.mem_cons_self, fit⟩
        have high := HoleFit.inHole fit
        omega
      rw [none]
      exact ih sorted.of_cons fun other member => inMap other (List.mem_cons_of_mem _ member)

end Holes

/-- `vm_map_find_space` without `VM_MAP_FIND_LAST_FREE`, on holes in address
order inside the map and below every wrap: the entry starts at the front guard
page of the lowest place any hole has for the entry and its back guard page,
and ends past them; `KERN_NO_SPACE` means that no hole has such a place. -/
theorem vmMapFindSpace_first_fit (map : VmMapSpace) {size mask : UInt64} {k : Nat}
    (isMask : mask.toNat = 2 ^ k - 1) (guardBefore guardAfter : Bool) (requested : size ≠ 0)
    (sorted : map.holes.Pairwise fun a b => a.vmeStart ≤ b.vmeStart)
    (inMap : ∀ hole ∈ map.holes, hole.vmeStart ≤ map.maxOffset)
    (noWrap : map.maxOffset.toNat + 2 * map.pageSize.toNat + mask.toNat + size.toNat < 2 ^ 64) :
    match vmMapFindSpace map size mask false guardBefore guardAfter with
    | .success start finish =>
      IsLeast (fitSet map.maxOffset.toNat (2 ^ k) (guardPage map.pageSize guardBefore)
          (size.toNat + guardPage map.pageSize guardAfter) map.holes)
        (start.toNat + guardPage map.pageSize guardBefore) ∧
      finish.toNat = start.toNat + guardPage map.pageSize guardBefore + size.toNat + guardPage map.pageSize guardAfter
    | .noSpace =>
      fitSet map.maxOffset.toNat (2 ^ k) (guardPage map.pageSize guardBefore)
        (size.toNat + guardPage map.pageSize guardAfter) map.holes = ∅
    | .invalidArgument => False := by
  have paddedNat : (if guardAfter then size + map.pageSize else size).toNat =
      size.toNat + guardPage map.pageSize guardAfter := by
    cases guardAfter
    · simp [guardPage]
    · simp only [if_true, guardPage, UInt64.toNat_add]
      exact Nat.mod_eq_of_lt (by omega)
  have loopNoWrap : map.maxOffset.toNat + map.pageSize.toNat + mask.toNat +
      (if guardAfter then size + map.pageSize else size).toNat < 2 ^ 64 := by
    rw [paddedNat]
    cases guardAfter <;> simp [guardPage] <;> omega
  have search := @findSpaceHoles_least map.maxOffset map.pageSize (if guardAfter then size + map.pageSize else size)
    mask guardBefore k isMask loopNoWrap map.holes sorted inMap
  rw [paddedNat] at search
  simp only [vmMapFindSpace, if_neg requested, Bool.false_eq_true, if_false]
  cases found : findSpaceHoles map.maxOffset map.pageSize (if guardAfter then size + map.pageSize else size) mask
      guardBefore map.holes with
  | none =>
    rw [found] at search
    exact search
  | some range =>
    obtain ⟨start, finish⟩ := range
    rw [found] at search
    obtain ⟨least, finishNat⟩ := search
    -- the front guard page lies inside the hole, so taking it back does not wrap
    have startNat : (if guardBefore then start - map.pageSize else start).toNat +
        guardPage map.pageSize guardBefore = start.toNat := by
      obtain ⟨hole, _, fit⟩ := least.1
      have guarded := fit.guarded
      cases guardBefore
      · simp [guardPage]
      · simp only [if_true, guardPage] at guarded ⊢
        rw [UInt64.toNat_sub_of_le _ _ (UInt64.le_iff_toNat_le.mpr (by omega))]
        omega
    dsimp only
    rw [startNat]
    exact ⟨least, by omega⟩

/-- Two pages with a front guard page in a map of 4 KiB pages that is one
hole. -/
theorem vmMapFindSpace_first_fit_page :
    match vmMapFindSpace ⟨[], [⟨0x1000, 0x100000⟩], 0x1000, 0x100000, 0x1000⟩ 0x2000 0xfff false true false with
    | .success start finish =>
      IsLeast (fitSet (0x100000 : UInt64).toNat (2 ^ 12) (guardPage 0x1000 true)
          ((0x2000 : UInt64).toNat + guardPage 0x1000 false) [⟨0x1000, 0x100000⟩])
        (start.toNat + guardPage 0x1000 true) ∧
      finish.toNat = start.toNat + guardPage 0x1000 true + (0x2000 : UInt64).toNat + guardPage 0x1000 false
    | .noSpace =>
      fitSet (0x100000 : UInt64).toNat (2 ^ 12) (guardPage 0x1000 true)
        ((0x2000 : UInt64).toNat + guardPage 0x1000 false) [⟨0x1000, 0x100000⟩] = ∅
    | .invalidArgument => True :=
  @vmMapFindSpace_first_fit ⟨[], [⟨0x1000, 0x100000⟩], 0x1000, 0x100000, 0x1000⟩ 0x2000 0xfff 12 (by decide) true false
    (by decide) (by decide) (by decide) (by decide)

section LastFree

/-- Where the free range below `entry` ends: the entry's start, or
`max_offset` above the last entry. -/
def lastFreeEnd (maxOffset : UInt64) : Option VmRange → UInt64
  | none => maxOffset
  | some entry => entry.vmeStart

/-- The walk of `vm_map_store_find_last_free_ll` over the entries below
`entry`, nearest first: it splits them into those it steps over, all at or
above where the free range below its final entry ends, and those left below,
all ending there or lower. -/
theorem findLastFreeLoop_skips (maxOffset : UInt64) (list : List VmRange)
    (ordered : list.Pairwise fun hi lo => lo.vmeEnd ≤ hi.vmeStart)
    (nonempty : ∀ entry ∈ list, entry.vmeStart ≤ entry.vmeEnd) (entry : Option VmRange)
    (below : ∀ other ∈ list, other.vmeEnd ≤ lastFreeEnd maxOffset entry) :
    ∃ skipped, list = skipped ++ (findLastFreeLoop maxOffset entry (lastFreeEnd maxOffset entry) list).2 ∧
      lastFreeEnd maxOffset (findLastFreeLoop maxOffset entry (lastFreeEnd maxOffset entry) list).1 ≤
        lastFreeEnd maxOffset entry ∧
      (∀ other ∈ skipped,
        lastFreeEnd maxOffset (findLastFreeLoop maxOffset entry (lastFreeEnd maxOffset entry) list).1 ≤
          other.vmeStart) ∧
      ∀ other ∈ (findLastFreeLoop maxOffset entry (lastFreeEnd maxOffset entry) list).2,
        other.vmeEnd ≤ lastFreeEnd maxOffset (findLastFreeLoop maxOffset entry (lastFreeEnd maxOffset entry) list).1 := by
  induction list generalizing entry with
  | nil => exact ⟨[], rfl, UInt64.le_refl _, by simp, by simp [findLastFreeLoop]⟩
  | cons prev rest ih =>
    have prevEnd : prev.vmeEnd ≤ lastFreeEnd maxOffset entry := below prev List.mem_cons_self
    have prevStart : prev.vmeStart ≤ prev.vmeEnd := nonempty prev List.mem_cons_self
    have restBelow : ∀ other ∈ rest, other.vmeEnd ≤ lastFreeEnd maxOffset (some prev) := fun other member =>
      List.rel_of_pairwise_cons ordered member
    by_cases contiguous : prev.vmeEnd = lastFreeEnd maxOffset entry ∨ prev.vmeEnd > maxOffset
    · -- the walk steps back onto `prev`
      have step : findLastFreeLoop maxOffset entry (lastFreeEnd maxOffset entry) (prev :: rest) =
          findLastFreeLoop maxOffset (some prev) (lastFreeEnd maxOffset (some prev)) rest := by
        rw [findLastFreeLoop, if_pos contiguous, lastFreeEnd]
      obtain ⟨skipped, split, endLe, skippedAbove, leftBelow⟩ :=
        ih ordered.of_cons (fun other member => nonempty other (List.mem_cons_of_mem _ member)) (some prev)
          restBelow
      rw [step]
      refine ⟨prev :: skipped, by rw [List.cons_append, ← split], ?_, ?_, leftBelow⟩
      · exact UInt64.le_trans endLe (UInt64.le_trans prevStart prevEnd)
      · intro other member
        rcases List.mem_cons.mp member with rfl | later
        · exact endLe
        · exact skippedAbove other later
    · -- the walk stops at `entry`
      have stop : findLastFreeLoop maxOffset entry (lastFreeEnd maxOffset entry) (prev :: rest) =
          (entry, prev :: rest) := by
        rw [findLastFreeLoop, if_neg contiguous]
      rw [stop]
      exact ⟨[], rfl, UInt64.le_refl _, by simp, below⟩

/-- The backward search, on the entries below `finish`, nearest first and each
ending at or below the start of the one after it: the range it finds starts
at or above `min_offset`, holds `size` bytes up to at most `finish`, and meets
none of the entries. -/
theorem findSpaceLastFree_free {minOffset size start finish' : UInt64} (before : List VmRange)
    (ordered : before.Pairwise fun hi lo => lo.vmeEnd ≤ hi.vmeStart)
    (nonempty : ∀ entry ∈ before, entry.vmeStart ≤ entry.vmeEnd) :
    ∀ {finish : UInt64}, (∀ entry ∈ before, entry.vmeEnd ≤ finish) →
      findSpaceLastFree minOffset size finish before = some (start, finish') →
      minOffset ≤ start ∧ finish' ≤ finish ∧ start.toNat + size.toNat = finish'.toNat ∧
        ∀ entry ∈ before, entry.vmeEnd ≤ start ∨ finish' ≤ entry.vmeStart := by
  induction before with
  | nil =>
    intro finish _ found
    simp only [findSpaceLastFree] at found
    split_ifs at found with outside
    cases found
    rw [not_or] at outside
    exact ⟨UInt64.not_lt.mp outside.1, UInt64.le_refl _, UInt64.toNat_sub_add_of_not_lt outside.2, by simp⟩
  | cons prev rest ih =>
    intro finish belowFinish found
    have prevEnd : prev.vmeEnd ≤ finish := belowFinish prev List.mem_cons_self
    have prevStart : prev.vmeStart ≤ prev.vmeEnd := nonempty prev List.mem_cons_self
    have restBelow : ∀ entry ∈ rest, entry.vmeEnd ≤ prev.vmeStart := fun entry member =>
      List.rel_of_pairwise_cons ordered member
    simp only [findSpaceLastFree] at found
    split_ifs at found with outside below
    · -- the entry before ends below the range: every earlier one does too
      cases found
      rw [not_or] at outside
      refine ⟨UInt64.not_lt.mp outside.1, UInt64.le_refl _, UInt64.toNat_sub_add_of_not_lt outside.2, ?_⟩
      intro entry member
      rcases List.mem_cons.mp member with rfl | earlier
      · exact Or.inl below
      · exact Or.inl (UInt64.le_trans (restBelow entry earlier) (UInt64.le_trans prevStart below))
    · -- the range moves below the entry before
      obtain ⟨aboveMin, belowPrev, sized, apart⟩ :=
        ih ordered.of_cons (fun entry member => nonempty entry (List.mem_cons_of_mem _ member)) restBelow found
      refine ⟨aboveMin, UInt64.le_trans belowPrev (UInt64.le_trans prevStart prevEnd), sized, ?_⟩
      intro entry member
      rcases List.mem_cons.mp member with rfl | earlier
      · exact Or.inr belowPrev
      · exact apart entry earlier

/-- `vm_map_find_space` with `VM_MAP_FIND_LAST_FREE`, on entries in address
order, each ending at or below the next one's start and at or below
`max_offset`: the range it hands out lies in `[min_offset, max_offset]`, holds
`size` bytes and meets no entry. -/
theorem vmMapFindSpace_last_free (map : VmMapSpace) {size mask start finish : UInt64}
    {guardBefore guardAfter : Bool}
    (ordered : map.entries.Pairwise fun lo hi => lo.vmeEnd ≤ hi.vmeStart)
    (nonempty : ∀ entry ∈ map.entries, entry.vmeStart ≤ entry.vmeEnd)
    (inMap : ∀ entry ∈ map.entries, entry.vmeEnd ≤ map.maxOffset)
    (found : vmMapFindSpace map size mask true guardBefore guardAfter = .success start finish) :
    map.minOffset ≤ start ∧ finish ≤ map.maxOffset ∧ start.toNat + size.toNat = finish.toNat ∧
      ∀ entry ∈ map.entries, entry.vmeEnd ≤ start ∨ finish ≤ entry.vmeStart := by
  have reversed : map.entries.reverse.Pairwise fun hi lo => lo.vmeEnd ≤ hi.vmeStart :=
    List.pairwise_reverse.mpr ordered
  obtain ⟨skipped, split, endLe, skippedAbove, leftBelow⟩ :=
    findLastFreeLoop_skips map.maxOffset map.entries.reverse reversed
      (fun entry member => nonempty entry (List.mem_reverse.mp member)) none
      (fun entry member => inMap entry (List.mem_reverse.mp member))
  have loopCall : findLastFreeLoop map.maxOffset none map.maxOffset map.entries.reverse =
      findLastFreeLoop map.maxOffset none (lastFreeEnd map.maxOffset none) map.entries.reverse := rfl
  generalize result : findLastFreeLoop map.maxOffset none (lastFreeEnd map.maxOffset none) map.entries.reverse =
    walk at split endLe skippedAbove leftBelow loopCall
  obtain ⟨last, before⟩ := walk
  -- the search starts below `last`, where the free range ends
  have search : findSpaceLastFree map.minOffset size (lastFreeEnd map.maxOffset last) before =
      some (start, finish) := by
    simp only [vmMapFindSpace, vmMapStoreFindLastFreeLl, loopCall] at found
    split_ifs at found
    cases last with
    | none =>
      rcases searched : findSpaceLastFree map.minOffset size map.maxOffset before with _ | ⟨start', finish'⟩ <;>
        simp only [searched, reduceCtorEq, FindSpaceResult.success.injEq] at found
      obtain ⟨rfl, rfl⟩ := found
      exact searched
    | some entry =>
      -- a map full down to `min_offset` gives `KERN_NO_SPACE`
      dsimp only at found
      split_ifs at found
      rcases searched : findSpaceLastFree map.minOffset size entry.vmeStart before with _ | ⟨start', finish'⟩ <;>
        simp only [searched, reduceCtorEq, FindSpaceResult.success.injEq] at found
      obtain ⟨rfl, rfl⟩ := found
      exact searched
  dsimp only at split endLe skippedAbove leftBelow
  have orderedAll := reversed
  rw [split] at orderedAll
  have leftNonempty : ∀ entry ∈ before, entry.vmeStart ≤ entry.vmeEnd := fun entry member =>
    nonempty entry (List.mem_reverse.mp (split ▸ List.mem_append_right skipped member))
  obtain ⟨aboveMin, belowEnd, sized, apart⟩ :=
    findSpaceLastFree_free before (List.pairwise_append.mp orderedAll).2.1 leftNonempty leftBelow search
  refine ⟨aboveMin, UInt64.le_trans belowEnd endLe, sized, ?_⟩
  -- an entry was either stepped over, above the range, or left below it
  intro entry member
  have walked : entry ∈ skipped ++ before := split ▸ List.mem_reverse.mpr member
  rcases List.mem_append.mp walked with stepped | left
  · exact Or.inr (UInt64.le_trans belowEnd (skippedAbove entry stepped))
  · exact apart entry left

/-- Two pages from the top of a map of 4 KiB pages whose one entry is
`[0x1000, 0x3000)`. -/
theorem vmMapFindSpace_last_free_page :
    let map : VmMapSpace := ⟨[⟨0x1000, 0x3000⟩], [⟨0x3000, 0x100000⟩], 0x1000, 0x100000, 0x1000⟩
    map.minOffset ≤ 0xfe000 ∧ (0x100000 : UInt64) ≤ map.maxOffset ∧
      (0xfe000 : UInt64).toNat + (0x2000 : UInt64).toNat = (0x100000 : UInt64).toNat ∧
      ∀ entry ∈ map.entries, entry.vmeEnd ≤ 0xfe000 ∨ 0x100000 ≤ entry.vmeStart :=
  @vmMapFindSpace_last_free ⟨[⟨0x1000, 0x3000⟩], [⟨0x3000, 0x100000⟩], 0x1000, 0x100000, 0x1000⟩ 0x2000 0xfff
    0xfe000 0x100000 false false (by decide) (by decide) (by decide) (by decide)

end LastFree

end Xnu.Vm
