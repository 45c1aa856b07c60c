import Xnu.Vm.MapStore

namespace Xnu.Vm

/-! The two lookups of the entry store agree. Under the store invariant, the
sorted list of disjoint entries with the tree over exactly those entries and a
hint that is the header or a listed entry, `vm_map_store_lookup_entry_ll` and
`vm_map_store_lookup_entry_rb` both compute `lookupSpec`: the entry that
contains the address, or else the last entry that ends at or below it, or else
the header. -/

/-- The store invariant: every entry is non-empty, each ends at or below the
start of the next, the tree's in-order walk is the list, and the hint points
into the list. -/
structure VmMap.StoreOk (map : VmMap) : Prop where
  nonempty : ∀ e ∈ map.entries, e.vmeStart < e.vmeEnd
  sorted : map.entries.Pairwise fun a b => a.vmeEnd ≤ b.vmeStart
  tree : map.rbHead.inorder = List.range map.entries.length
  hint : ∀ i, map.hint = .entry i → i < map.entries.length

/-- Entry `i` contains the address: `vme_start ≤ address < vme_end`. -/
def VmMap.contains (map : VmMap) (address i : Nat) : Bool :=
  (map.entryAt (.entry i)).vmeStart ≤ address && address < (map.entryAt (.entry i)).vmeEnd

/-- What a lookup is for: `TRUE` with the entry that contains the address, or
`FALSE` with the last entry that ends at or below it, or with the header when
there is none. -/
def lookupSpec (map : VmMap) (address : Nat) : Bool × VmEntryRef :=
  match (List.range map.entries.length).find? (map.contains address) with
  | some i => (true, .entry i)
  | none =>
    match ((List.range map.entries.length).filter
        fun i => (map.entryAt (.entry i)).vmeEnd ≤ address).getLast? with
    | some i => (false, .entry i)
    | none => (false, .header)

namespace VmMap.StoreOk
variable {map : VmMap} (ok : map.StoreOk)
include ok

theorem entryAt_lt {i : Nat} (inside : i < map.entries.length) :
    (map.entryAt (.entry i)).vmeStart < (map.entryAt (.entry i)).vmeEnd := by
  rw [VmMap.entryAt, List.getD_eq_getElem _ _ inside]
  exact ok.nonempty _ (List.getElem_mem inside)

theorem entryAt_ordered {i j : Nat} (lt : i < j) (inside : j < map.entries.length) :
    (map.entryAt (.entry i)).vmeEnd ≤ (map.entryAt (.entry j)).vmeStart := by
  rw [VmMap.entryAt, VmMap.entryAt, List.getD_eq_getElem _ _ (lt.trans inside),
    List.getD_eq_getElem _ _ inside]
  exact List.pairwise_iff_getElem.mp ok.sorted i j (lt.trans inside) inside lt

end VmMap.StoreOk

/-- An entry that contains the address is the one the specification returns:
the entries are disjoint, so it is the only one. -/
theorem lookupSpec_of_contains {map : VmMap} (ok : map.StoreOk) {address i : Nat}
    (inside : i < map.entries.length) (hit : map.contains address i = true) :
    lookupSpec map address = (true, .entry i) := by
  have starts : (map.entryAt (.entry i)).vmeStart ≤ address := by
    simp only [VmMap.contains, Bool.and_eq_true, decide_eq_true_eq] at hit
    exact hit.1
  have first : (List.range map.entries.length).find? (map.contains address) = some i := by
    refine List.find?_range_eq_some.mpr ⟨hit, List.mem_range.mpr inside, fun j lt => ?_⟩
    have before := ok.entryAt_ordered lt inside
    simp only [VmMap.contains, Bool.not_and, Bool.or_eq_true, Bool.not_eq_true',
      decide_eq_false_iff_not, not_lt, not_le]
    omega
  simp only [lookupSpec, first]

section Rb
variable {map : VmMap}

theorem lookupRbLoop_eq (ok : map.StoreOk) (address : Nat) (t : RbStore)
    (sorted : t.inorder.Pairwise (· < ·)) (inside : ∀ i ∈ t.inorder, i < map.entries.length)
    (prev : Option VmEntryRef) :
    lookupRbLoop map address t prev =
      match t.inorder.find? (map.contains address) with
      | some i => (true, .entry i)
      | none => (false, match (t.inorder.filter fun i =>
            (map.entryAt (.entry i)).vmeStart ≤ address).getLast? with
          | some i => .entry i
          | none => prev.getD .header) := by
  induction t generalizing prev with
  | nil => rfl
  | node left i right ihLeft ihRight =>
    simp only [RbStore.inorder, List.pairwise_append, List.pairwise_cons, List.mem_cons] at sorted
    obtain ⟨sortedLeft, ⟨belowRight, sortedRight⟩, belowI⟩ := sorted
    have iInside : i < map.entries.length := inside i (by simp [RbStore.inorder])
    have leftInside : ∀ j ∈ left.inorder, j < map.entries.length := fun j mem =>
      inside j (by simp [RbStore.inorder, mem])
    have rightInside : ∀ j ∈ right.inorder, j < map.entries.length := fun j mem =>
      inside j (by simp [RbStore.inorder, mem])
    -- an entry left of `i` ends by its start, one right of it starts after its end
    have leftEnds : ∀ j ∈ left.inorder, (map.entryAt (.entry j)).vmeEnd ≤ (map.entryAt (.entry i)).vmeStart :=
      fun j mem => ok.entryAt_ordered (belowI j mem i (.inl rfl)) iInside
    have rightStarts : ∀ j ∈ right.inorder, (map.entryAt (.entry i)).vmeEnd ≤ (map.entryAt (.entry j)).vmeStart :=
      fun j mem => ok.entryAt_ordered (belowRight j mem) (rightInside j mem)
    have iBounds := ok.entryAt_lt iInside
    have iStarts : ∀ j ∈ right.inorder,
        (map.entryAt (.entry i)).vmeStart < (map.entryAt (.entry j)).vmeStart := fun j mem => by
      have := rightStarts j mem
      omega
    simp only [lookupRbLoop, RbStore.inorder]
    by_cases above : (map.entryAt (.entry i)).vmeStart ≤ address
    · have leftMiss : left.inorder.find? (map.contains address) = none := by
        rw [List.find?_eq_none]
        intro j mem
        have := leftEnds j mem
        simp only [VmMap.contains, Bool.and_eq_true, decide_eq_true_eq, not_and, not_lt]
        omega
      by_cases within : address < (map.entryAt (.entry i)).vmeEnd
      · have hit : map.contains address i = true := by
          simp only [VmMap.contains, Bool.and_eq_true, decide_eq_true_eq]
          exact ⟨above, within⟩
        rw [if_pos above, if_pos within, List.find?_append, leftMiss, Option.none_or,
          List.find?_cons_of_pos hit]
      · have miss : ¬ map.contains address i = true := by
          simp only [VmMap.contains, Bool.and_eq_true, decide_eq_true_eq, not_and]
          exact fun _ => within
        rw [if_pos above, if_neg within, ihRight sortedRight rightInside, List.find?_append, leftMiss,
          Option.none_or, List.find?_cons_of_neg miss]
        cases right.inorder.find? (map.contains address) with
        | some j => rfl
        | none =>
          simp only [List.filter_append, List.filter_cons, above, decide_true, if_true,
            List.getLast?_append, List.getLast?_cons]
          cases (right.inorder.filter _).getLast? <;> rfl
    · have rightMiss : right.inorder.find? (map.contains address) = none := by
        rw [List.find?_eq_none]
        intro j mem
        have := iStarts j mem
        simp only [VmMap.contains, Bool.and_eq_true, decide_eq_true_eq, not_and, not_lt]
        omega
      have rightNone : right.inorder.filter (fun j => (map.entryAt (.entry j)).vmeStart ≤ address) = [] := by
        rw [List.filter_eq_nil_iff]
        intro j mem
        have := iStarts j mem
        simp only [decide_eq_true_eq]
        omega
      have miss : ¬ map.contains address i = true := by
        simp only [VmMap.contains, Bool.and_eq_true, decide_eq_true_eq, not_and]
        exact fun below => absurd below above
      rw [if_neg above, ihLeft sortedLeft leftInside, List.find?_append, List.find?_cons_of_neg miss,
        rightMiss, Option.or_none]
      cases left.inorder.find? (map.contains address) with
      | some j => rfl
      | none =>
        simp only [List.filter_append, List.filter_cons, above, decide_false, Bool.false_eq_true,
          if_false, rightNone, List.append_nil]

/-- When no entry contains the address, the entries that start at or below it
are those that end at or below it. -/
theorem filter_start_eq_filter_end (ok : map.StoreOk) (address : Nat)
    (miss : (List.range map.entries.length).find? (map.contains address) = none) :
    (List.range map.entries.length).filter (fun i => (map.entryAt (.entry i)).vmeStart ≤ address) =
      (List.range map.entries.length).filter (fun i => (map.entryAt (.entry i)).vmeEnd ≤ address) := by
  apply List.filter_congr
  intro i mem
  have bounds := ok.entryAt_lt (List.mem_range.mp mem)
  have notHit := List.find?_eq_none.mp miss i mem
  simp only [VmMap.contains, Bool.and_eq_true, decide_eq_true_eq, not_and, not_lt] at notHit
  simp only [decide_eq_decide]
  omega

/-- The tree lookup is the specified one. -/
theorem vmMapStoreLookupEntryRb_eq (ok : map.StoreOk) (address : Nat) :
    vmMapStoreLookupEntryRb map address = lookupSpec map address := by
  have sorted : map.rbHead.inorder.Pairwise (· < ·) := by
    rw [ok.tree]
    exact List.pairwise_lt_range
  have inside : ∀ i ∈ map.rbHead.inorder, i < map.entries.length := by
    rw [ok.tree]
    exact fun i => List.mem_range.mp
  rw [vmMapStoreLookupEntryRb, lookupRbLoop_eq ok address _ sorted inside, ok.tree, lookupSpec]
  cases miss : (List.range map.entries.length).find? (map.contains address) with
  | some i => rfl
  | none =>
    rw [filter_start_eq_filter_end ok address miss]
    cases ((List.range map.entries.length).filter _).getLast? <;> rfl

end Rb

section Ll
variable {map : VmMap}

/-- The pointer to slot `k` of the list, the header past its end. -/
def VmMap.refAt (map : VmMap) (k : Nat) : VmEntryRef :=
  if k < map.entries.length then .entry k else .header

theorem VmMap.vmeNext_entry (map : VmMap) (k : Nat) : map.vmeNext (.entry k) = map.refAt (k + 1) := rfl

theorem VmMap.vmeNext_header (map : VmMap) : map.vmeNext .header = map.refAt 0 := by
  unfold VmMap.vmeNext VmMap.refAt
  split_ifs <;> first | rfl | omega

theorem VmMap.refAt_inj {k m : Nat} (hk : k ≤ map.entries.length) (hm : m ≤ map.entries.length) :
    map.refAt k = map.refAt m ↔ k = m := by
  unfold VmMap.refAt
  constructor
  · intro same
    by_cases below : k < map.entries.length <;> by_cases below' : m < map.entries.length <;>
      simp only [below, below', if_true, if_false, VmEntryRef.entry.injEq, reduceCtorEq] at same <;>
      omega
  · rintro rfl
    rfl

/-- The scan from slot `k` to the stop `m`: it stops at the first entry that
ends above the address, which it returns when it contains the address and
whose predecessor it returns otherwise; past `m` it returns `m`'s
predecessor. -/
theorem lookupLlScan_eq (address : Nat) {k m : Nat} (le : k ≤ m) (hm : m ≤ map.entries.length)
    (fuel : Nat) (enough : m - k < fuel) :
    lookupLlScan map address (map.refAt m) fuel (map.refAt k) =
      some (match (List.range' k (m - k)).find? (fun j => address < (map.entryAt (.entry j)).vmeEnd) with
        | some j => if (map.entryAt (.entry j)).vmeStart ≤ address then (true, .entry j)
            else (false, map.vmePrev (.entry j))
        | none => (false, map.vmePrev (map.refAt m))) := by
  induction fuel generalizing k with
  | zero => omega
  | succ fuel ih =>
    rw [lookupLlScan]
    by_cases stop : k = m
    · subst stop
      rw [if_pos rfl, Nat.sub_self, List.range'_zero, List.find?_nil]
    have inside : k < map.entries.length := by omega
    have atK : map.refAt k = .entry k := if_pos inside
    rw [if_neg (fun same => stop ((VmMap.refAt_inj (by omega) hm).mp same)), atK,
      List.range'_eq_cons_iff.mpr ⟨rfl, by omega, rfl⟩, List.find?_cons]
    by_cases ends : address < (map.entryAt (.entry k)).vmeEnd
    · rw [if_pos ends, decide_eq_true ends]
      dsimp only
      split_ifs <;> rfl
    · rw [if_neg ends, decide_eq_false ends, VmMap.vmeNext_entry, ih (by omega) (by omega),
        show m - k - 1 = m - (k + 1) by omega]

theorem range_eq_range'_append {n k : Nat} (le : k ≤ n) :
    List.range n = List.range' 0 k ++ List.range' k (n - k) := by
  have joined := List.range'_append_1 (s := 0) (m := k) (n := n - k)
  rw [Nat.zero_add, Nat.add_sub_cancel' le] at joined
  rw [List.range_eq_range', joined]

theorem filter_range_eq_range {n j : Nat} {q : Nat → Bool} (le : j ≤ n)
    (below : ∀ i < n, q i = true ↔ i < j) : (List.range n).filter q = List.range j := by
  rw [range_eq_range'_append le, List.filter_append, List.filter_eq_self.mpr,
    List.filter_eq_nil_iff.mpr, List.append_nil, List.range_eq_range']
  · intro i mem
    have := List.mem_range'_1.mp mem
    rw [below i (by omega)]
    omega
  · intro i mem
    have := List.mem_range'_1.mp mem
    exact (below i (by omega)).mpr (by omega)

/-- The first entry that ends above the address decides a lookup: it is the
containing entry when it starts at or below the address, and otherwise its
predecessor is the last entry ending at or below it. -/
theorem lookupSpec_eq_first (ok : map.StoreOk) (address : Nat) :
    lookupSpec map address =
      match (List.range map.entries.length).find? (fun j => address < (map.entryAt (.entry j)).vmeEnd) with
      | some j => if (map.entryAt (.entry j)).vmeStart ≤ address then (true, .entry j)
          else (false, map.vmePrev (.entry j))
      | none => (false, map.vmePrev .header) := by
  cases first : (List.range map.entries.length).find? (fun j => address < (map.entryAt (.entry j)).vmeEnd) with
  | some j =>
    obtain ⟨ends, mem, before⟩ := List.find?_range_eq_some.mp first
    have inside := List.mem_range.mp mem
    simp only [decide_eq_true_eq, Bool.not_eq_true', decide_eq_false_iff_not, not_lt] at ends before
    by_cases starts : (map.entryAt (.entry j)).vmeStart ≤ address
    · have hit : (List.range map.entries.length).find? (map.contains address) = some j := by
        refine List.find?_range_eq_some.mpr ⟨?_, mem, fun i lt => ?_⟩
        · simp only [VmMap.contains, Bool.and_eq_true, decide_eq_true_eq]
          exact ⟨starts, ends⟩
        · have := before i lt
          simp only [VmMap.contains, Bool.not_and, Bool.or_eq_true, Bool.not_eq_true',
            decide_eq_false_iff_not, not_lt, not_le]
          omega
      simp only [lookupSpec, hit, if_pos starts]
    · -- no entry contains the address, and those before `j` end at or below it
      have later : ∀ i, j < i → i < map.entries.length →
          address < (map.entryAt (.entry i)).vmeStart := fun i lt inside' => by
        have := ok.entryAt_ordered lt inside'
        omega
      have miss : (List.range map.entries.length).find? (map.contains address) = none := by
        refine List.find?_range_eq_none.mpr fun i inside' => ?_
        simp only [VmMap.contains, Bool.not_and, Bool.or_eq_true, Bool.not_eq_true',
          decide_eq_false_iff_not, not_lt, not_le]
        rcases Nat.lt_trichotomy i j with lt | rfl | gt
        · exact .inr (by have := before i lt; omega)
        · exact .inl (by omega)
        · exact .inl (later i gt inside')
      have ending : (List.range map.entries.length).filter
          (fun i => (map.entryAt (.entry i)).vmeEnd ≤ address) = List.range j := by
        refine filter_range_eq_range inside.le fun i inside' => ?_
        simp only [decide_eq_true_eq]
        rcases Nat.lt_or_ge i j with lt | ge
        · exact ⟨fun _ => lt, fun _ => by have := before i lt; omega⟩
        · have bounds := ok.entryAt_lt inside'
          rcases Nat.eq_or_lt_of_le ge with rfl | gt
          · exact ⟨fun _ => by omega, fun lt => by omega⟩
          · exact ⟨fun _ => by have := later i gt inside'; omega, fun lt => by omega⟩
      simp only [lookupSpec, miss, ending, List.getLast?_range, if_neg starts, VmMap.vmePrev]
      split_ifs <;> rfl
  | none =>
    have below := List.find?_range_eq_none.mp first
    simp only [Bool.not_eq_true', decide_eq_false_iff_not, not_lt] at below
    have miss : (List.range map.entries.length).find? (map.contains address) = none := by
      refine List.find?_range_eq_none.mpr fun i inside => ?_
      simp only [VmMap.contains, Bool.not_and, Bool.or_eq_true, Bool.not_eq_true',
        decide_eq_false_iff_not, not_lt, not_le]
      exact .inr (below i inside)
    have ending : (List.range map.entries.length).filter
        (fun i => (map.entryAt (.entry i)).vmeEnd ≤ address) = List.range map.entries.length :=
      filter_range_eq_range le_rfl fun i inside => by simpa using ⟨fun _ => inside, fun _ => below i inside⟩
    simp only [lookupSpec, miss, ending, List.getLast?_range, VmMap.vmePrev]
    split_ifs <;> rfl

theorem find?_range_split {n k : Nat} (le : k ≤ n) (p : Nat → Bool) :
    (List.range n).find? p = ((List.range' 0 k).find? p).or ((List.range' k (n - k)).find? p) := by
  rw [range_eq_range'_append le, List.find?_append]

/-- The list lookup is the specified one, from every hint. -/
theorem vmMapStoreLookupEntryLl_eq (ok : map.StoreOk) (address : Nat) :
    vmMapStoreLookupEntryLl map address = some (lookupSpec map address) := by
  rw [lookupSpec_eq_first ok]
  -- the search starts at slot `h`: the hint, or the first entry for the header
  obtain ⟨h, start, bound⟩ : ∃ h, (if map.hint = .header then map.vmeNext .header else map.hint) =
      map.refAt h ∧ (h < map.entries.length ∨ h = 0 ∧ map.entries.length = 0) := by
    cases hint : map.hint with
    | header => exact ⟨0, by rw [if_pos rfl, VmMap.vmeNext_header], by omega⟩
    | entry h =>
      have inside := ok.hint h hint
      exact ⟨h, by rw [if_neg (by simp), VmMap.refAt, if_pos inside], .inl inside⟩
  have atHeader : map.refAt map.entries.length = .header := if_neg (Nat.lt_irrefl _)
  unfold vmMapStoreLookupEntryLl
  dsimp only
  rw [start]
  rcases bound with inside | ⟨rfl, empty⟩
  · -- a listed entry: the entries before it end at or below its start
    have atH : map.refAt h = .entry h := if_pos inside
    have hBounds := ok.entryAt_lt inside
    have before : ∀ j < h, (map.entryAt (.entry j)).vmeEnd ≤ (map.entryAt (.entry h)).vmeStart :=
      fun j lt => ok.entryAt_ordered lt inside
    rw [atH]
    by_cases geq : (map.entryAt (.entry h)).vmeStart ≤ address
    · rw [if_pos geq]
      by_cases ends : address < (map.entryAt (.entry h)).vmeEnd
      · have first : (List.range map.entries.length).find?
            (fun j => address < (map.entryAt (.entry j)).vmeEnd) = some h := by
          refine List.find?_range_eq_some.mpr ⟨by simpa using ends, List.mem_range.mpr inside,
            fun j lt => ?_⟩
          have := before j lt
          simp only [Bool.not_eq_true', decide_eq_false_iff_not, not_lt]
          omega
        rw [if_pos ⟨by simp, ends⟩, first]
        simp only [if_pos geq]
      · have skipped : (List.range' 0 h).find? (fun j => address < (map.entryAt (.entry j)).vmeEnd) = none := by
          refine List.find?_range'_eq_none.mpr fun j _ lt => ?_
          have := before j (by omega)
          simp only [Bool.not_eq_true', decide_eq_false_iff_not, not_lt]
          omega
        rw [if_neg (fun quick => ends quick.2), ← atH, ← atHeader,
          lookupLlScan_eq address inside.le le_rfl _ (by omega),
          find?_range_split inside.le, skipped, Option.none_or]
    · -- from the first entry to the hint, which ends above the address
      rw [if_neg geq, VmMap.vmeNext_entry, VmMap.vmeNext_header,
        lookupLlScan_eq address (Nat.zero_le _) (by omega) _ (by omega), Nat.sub_zero]
      have found : (List.range' 0 (h + 1)).find?
          (fun j => address < (map.entryAt (.entry j)).vmeEnd) ≠ none := by
        intro none'
        have := List.find?_range'_eq_none.mp none' h (Nat.zero_le _) (by omega)
        simp only [Bool.not_eq_true', decide_eq_false_iff_not, not_lt] at this
        omega
      rw [find?_range_split (show h + 1 ≤ map.entries.length by omega)]
      cases scan : (List.range' 0 (h + 1)).find? (fun j => address < (map.entryAt (.entry j)).vmeEnd) with
      | none => exact absurd scan found
      | some j => rfl
  · -- the empty map: every search stops at once, at the header
    have atZero : map.refAt 0 = .header := by rw [VmMap.refAt, if_neg (by omega)]
    have noEntry : (List.range map.entries.length).find?
        (fun j => address < (map.entryAt (.entry j)).vmeEnd) = none := by
      rw [empty, List.range_zero, List.find?_nil]
    rw [noEntry, atZero]
    split_ifs with geq quick
    · exact absurd rfl quick.1
    · rw [lookupLlScan, if_pos rfl]
    · rw [VmMap.vmeNext_header, atZero, lookupLlScan, if_pos rfl]

end Ll

/-- For every map that keeps the store invariant, every hint and every
address, the list lookup and the tree lookup return the same answer, and it is
the specified one. -/
theorem vmMapStoreLookupEntry_ll_rb_agree {map : VmMap} (ok : map.StoreOk) (address : Nat) :
    vmMapStoreLookupEntryLl map address = some (vmMapStoreLookupEntryRb map address) ∧
      vmMapStoreLookupEntryRb map address = lookupSpec map address := by
  have rb := vmMapStoreLookupEntryRb_eq ok address
  exact ⟨by rw [vmMapStoreLookupEntryLl_eq ok, rb], rb⟩

/-- Two entries with a gap between them, the tree rooted at the first and the
hint at the second. -/
def twoEntryMap : VmMap :=
  ⟨[⟨0x1000, 0x2000⟩, ⟨0x3000, 0x5000⟩], 0, 0x10000, .node .nil 0 (.node .nil 1 .nil), .entry 1⟩

theorem twoEntryMap_storeOk : twoEntryMap.StoreOk :=
  ⟨by decide, by decide, rfl, fun i hint => by cases hint; decide⟩

/-- An address in the gap, below the hint: the list lookup scans from the head
to the hint and both lookups return the entry before the gap. -/
theorem vmMapStoreLookupEntry_ll_rb_agree_gap :
    (vmMapStoreLookupEntryLl twoEntryMap 0x2800 = some (vmMapStoreLookupEntryRb twoEntryMap 0x2800) ∧
      vmMapStoreLookupEntryRb twoEntryMap 0x2800 = lookupSpec twoEntryMap 0x2800) ∧
      lookupSpec twoEntryMap 0x2800 = (false, .entry 0) :=
  ⟨vmMapStoreLookupEntry_ll_rb_agree twoEntryMap_storeOk 0x2800, by decide⟩

end Xnu.Vm
