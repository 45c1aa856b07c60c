import Xnu.Ipc.GrowCopy

namespace Xnu.Ipc

/-! The copy of `ipc_entry_grow_table` is linearizable. Whatever other threads
write meanwhile, as long as each write is noted by `ipc_entry_modified`, the
table the grower installs is the one the sequential growth `ipcEntryGrowTo`
computes from the space as it stands at the installation, and its reverse
hash holds exactly its send rights. Once other threads stop writing, the
grower installs after at most one more pass.

The argument is an invariant of every state a growth passes through: an old
entry is either copied as it now stands or still pending, that is in the
window of changes noted since the watermarks were last reset or still ahead in
the current pass. A relock that finds no change therefore finds every entry
copied. -/

/-! `ipc_space_rand_freelist` on the new slots leaves the old part alone. -/

section RandFreelist

variable (which : Nat → Bool)

theorem ipcSpaceRandFreelistLoop_set_comm (e : IpcEntry) {j : Nat} :
    ∀ {fuel k curr bottom top : Nat} {table : List IpcEntry}, j < curr → j < bottom →
      ipcSpaceRandFreelistLoop which (table.set j e) fuel k curr bottom top =
        (ipcSpaceRandFreelistLoop which table fuel k curr bottom top).set j e := by
  intro fuel
  induction fuel with
  | zero =>
    intro k curr bottom top table belowCurr _
    exact List.set_comm _ _ (Nat.ne_of_lt belowCurr)
  | succ fuel ih =>
    intro k curr bottom top table belowCurr belowBottom
    simp only [ipcSpaceRandFreelistLoop]
    split_ifs with inside
    · rw [List.set_comm _ _ (Nat.ne_of_lt belowCurr), ih (by omega) belowBottom]
    · rw [List.set_comm _ _ (Nat.ne_of_lt belowCurr), ih belowBottom (by omega)]
    · exact List.set_comm _ _ (Nat.ne_of_lt belowCurr)

theorem ipcSpaceRandFreelistLoop_length :
    ∀ {fuel k curr bottom top : Nat} {table : List IpcEntry},
      (ipcSpaceRandFreelistLoop which table fuel k curr bottom top).length = table.length := by
  intro fuel
  induction fuel with
  | zero => intro k curr bottom top table; exact List.length_set
  | succ fuel ih =>
    intro k curr bottom top table
    simp only [ipcSpaceRandFreelistLoop]
    split_ifs <;> simp only [ih, List.length_set]

/-- Every slot the loop writes is a fresh free entry. -/
theorem ipcSpaceRandFreelistLoop_forall {P : IpcEntry → Prop} (fresh : ∀ n, P (IpcEntry.free n)) :
    ∀ {fuel k curr bottom top : Nat} {table : List IpcEntry}, (∀ e ∈ table, P e) →
      ∀ e ∈ ipcSpaceRandFreelistLoop which table fuel k curr bottom top, P e := by
  have written : ∀ {table : List IpcEntry} {i n : Nat}, (∀ e ∈ table, P e) →
      ∀ e ∈ table.set i (IpcEntry.free n), P e := fun all e mem =>
    (List.mem_or_eq_of_mem_set mem).elim (all e) fun same => same ▸ fresh _
  intro fuel
  induction fuel with
  | zero => intro k curr bottom top table all; exact written all
  | succ fuel ih =>
    intro k curr bottom top table all
    simp only [ipcSpaceRandFreelistLoop]
    split_ifs
    · exact ih (written all)
    · exact ih (written all)
    · exact written all

variable {which} {table : List IpcEntry} {bottom top j : Nat}

theorem ipcSpaceRandFreelist_set_comm (e : IpcEntry) (pos : 0 < bottom) (below : j < bottom) :
    ipcSpaceRandFreelist which (table.set j e) bottom top =
      (ipcSpaceRandFreelist which table bottom top).set j e := by
  simp only [ipcSpaceRandFreelist, if_neg (Nat.ne_of_gt pos)]
  exact ipcSpaceRandFreelistLoop_set_comm which e below (by omega)

theorem ipcSpaceRandFreelist_length (pos : 0 < bottom) :
    (ipcSpaceRandFreelist which table bottom top).length = table.length := by
  simp only [ipcSpaceRandFreelist, if_neg (Nat.ne_of_gt pos)]
  exact ipcSpaceRandFreelistLoop_length which

/-- The slots below `bottom` keep what they held. -/
theorem ipcSpaceRandFreelist_getElem?_of_lt (pos : 0 < bottom) (below : j < bottom)
    (inside : j < table.length) :
    (ipcSpaceRandFreelist which table bottom top)[j]? = table[j]? := by
  have same := @ipcSpaceRandFreelist_set_comm which table bottom top j table[j] pos below
  rw [List.set_getElem_self inside] at same
  rw [same, List.getElem?_set_self (by rw [ipcSpaceRandFreelist_length pos]; exact inside),
    List.getElem?_eq_getElem inside]

theorem ipcSpaceRandFreelist_take (pos : 0 < bottom) (le : bottom ≤ table.length) :
    (ipcSpaceRandFreelist which table bottom top).take bottom = table.take bottom := by
  apply List.ext_getElem?
  intro n
  rw [List.getElem?_take, List.getElem?_take]
  split_ifs with below
  · exact ipcSpaceRandFreelist_getElem?_of_lt pos below (by omega)
  · rfl

end RandFreelist

/-! The reverse hash of the new table. -/

/-- The reverse hash of a table holds exactly its send rights, as pairs of
the object and the entry's index. -/
def HashExact (table : List IpcEntry) (hash : Finset (Nat × Nat)) : Prop :=
  ∀ obj i, (obj, i) ∈ hash ↔ table[i]?.bind IpcEntry.sendObject = some obj

section Hash

variable {hash : Finset (Nat × Nat)} {entry : IpcEntry} {index obj i : Nat}

theorem ipcHashTableDelete_mem :
    (obj, i) ∈ ipcHashTableDelete hash entry index ↔
      (obj, i) ∈ hash ∧ ¬ (i = index ∧ entry.sendObject = some obj) := by
  obtain ⟨_ | o, bits, next⟩ := entry
  · simp [ipcHashTableDelete, IpcEntry.sendObject]
  · by_cases send : ieBitsType bits = machPortTypeSend
    · simp only [ipcHashTableDelete, IpcEntry.sendObject, if_pos send, Finset.mem_erase, ne_eq,
        Prod.mk.injEq, Option.some.injEq]
      constructor
      · rintro ⟨differ, mem⟩
        exact ⟨mem, fun ⟨same, eq⟩ => differ ⟨eq.symm, same⟩⟩
      · rintro ⟨mem, differ⟩
        exact ⟨fun ⟨eq, same⟩ => differ ⟨same, eq.symm⟩, mem⟩
    · simp [ipcHashTableDelete, IpcEntry.sendObject, send]

theorem ipcHashTableInsert_mem :
    (obj, i) ∈ ipcHashTableInsert hash entry index ↔
      (i = index ∧ entry.sendObject = some obj) ∨ (obj, i) ∈ hash := by
  obtain ⟨_ | o, bits, next⟩ := entry
  · simp [ipcHashTableInsert, IpcEntry.sendObject]
  · by_cases send : ieBitsType bits = machPortTypeSend
    · simp only [ipcHashTableInsert, IpcEntry.sendObject, if_pos send, Finset.mem_insert,
        Prod.mk.injEq, Option.some.injEq]
      constructor
      · rintro (⟨eq, same⟩ | mem)
        · exact .inl ⟨same, eq.symm⟩
        · exact .inr mem
      · rintro (⟨same, eq⟩ | mem)
        · exact .inl ⟨eq.symm, same⟩
        · exact .inr mem
    · simp [ipcHashTableInsert, IpcEntry.sendObject, send]

end Hash

/-- Either way the copy leaves the snapshot in the new table. -/
theorem ipcEntryGrowCopy_fst (table : List IpcEntry) (hash : Finset (Nat × Nat)) (i : Nat)
    (osnap : IpcEntry) : (ipcEntryGrowCopy table hash i osnap).1 = table.set i osnap := by
  unfold ipcEntryGrowCopy
  dsimp only
  split_ifs with changed
  · rfl
  · have sameObject : (table.getD i ⟨none, 0, 0⟩).ieObject = osnap.ieObject :=
      not_not.mp fun differ => changed (.inl differ)
    obtain ⟨o, bits, next⟩ := osnap
    dsimp only at sameObject ⊢
    rw [← sameObject]

/-- The copy keeps the reverse hash exact: the hash changes with the entry's
send right, and only when its object or its type changed. -/
theorem ipcEntryGrowCopy_hashExact {table : List IpcEntry} {hash : Finset (Nat × Nat)} {i : Nat}
    (osnap : IpcEntry) (inside : i < table.length) (exact : HashExact table hash) :
    HashExact (table.set i osnap) (ipcEntryGrowCopy table hash i osnap).2 := by
  have current : table[i]? = some (table.getD i ⟨none, 0, 0⟩) := by
    rw [List.getD_eq_getElem _ _ inside, List.getElem?_eq_getElem inside]
  intro obj j
  by_cases atI : j = i
  · subst atI
    rw [List.getElem?_set_self inside, Option.bind_some]
    unfold ipcEntryGrowCopy
    dsimp only
    split_ifs with changed
    · rw [ipcHashTableInsert_mem, ipcHashTableDelete_mem, exact, current, Option.bind_some]
      simp only [true_and, and_not_self, or_false]
    · -- the same object and type: the same send right
      simp only [not_or, not_not] at changed
      rw [exact, current, Option.bind_some]
      simp only [IpcEntry.sendObject, changed.1, changed.2]
  · rw [List.getElem?_set_ne (Ne.symm atI)]
    unfold ipcEntryGrowCopy
    dsimp only
    split_ifs
    · rw [ipcHashTableInsert_mem, ipcHashTableDelete_mem, exact]
      simp only [atI, false_and, not_false_eq_true, and_true, false_or]
    · exact exact obj j

/-- A change that keeps every entry's send right keeps the hash exact. -/
theorem HashExact.modify {table : List IpcEntry} {hash : Finset (Nat × Nat)} (exact : HashExact table hash)
    (j : Nat) {f : IpcEntry → IpcEntry} (keeps : ∀ e, (f e).sendObject = e.sendObject) :
    HashExact (table.modify j f) hash := by
  intro obj i
  rw [exact, List.getElem?_modify]
  split_ifs
  · cases table[i]? <;> simp [keeps]
  · simp

/-! What a step changes. -/

theorem ipcEntryModified_eq (lowMod highMod index : Nat) :
    ipcEntryModified lowMod highMod index = (min lowMod index, max highMod index) := by
  unfold ipcEntryModified
  congr 1
  · split_ifs <;> omega
  · split_ifs <;> omega

section State

variable (s : GrowState) (index : Nat) (entry : IpcEntry) (free hashed : Nat)

@[simp] theorem GrowState.modify_table : (s.modify index entry free hashed).table = s.table := rfl

@[simp] theorem GrowState.modify_hash : (s.modify index entry free hashed).hash = s.hash := rfl

@[simp] theorem GrowState.modify_isTable :
    (s.modify index entry free hashed).space.isTable = s.space.isTable.set index entry := rfl

@[simp] theorem GrowState.modify_isLowMod :
    (s.modify index entry free hashed).isLowMod = min s.isLowMod index := by
  simp only [GrowState.modify, ipcEntryModified_eq]

@[simp] theorem GrowState.modify_isHighMod :
    (s.modify index entry free hashed).isHighMod = max s.isHighMod index := by
  simp only [GrowState.modify, ipcEntryModified_eq]

@[simp] theorem GrowState.modify_pc : (s.modify index entry free hashed).pc = s.pc.tear index := rfl

end State

/-- The old entries a pass still has ahead of it. -/
def GrowPc.Ahead (j : Nat) : GrowPc → Prop
  | .scan _ hiMod i => i ≤ j ∧ j ≤ hiMod
  | .snapshot _ hiMod i _ => i ≤ j ∧ j ≤ hiMod
  | _ => False

section Tear

variable {pc : GrowPc} {index : Nat}

theorem GrowPc.ahead_tear (j : Nat) : (pc.tear index).Ahead j ↔ pc.Ahead j := by
  cases pc <;> rfl

theorem GrowPc.tear_eq_scan {lowMod hiMod i : Nat} :
    pc.tear index = .scan lowMod hiMod i ↔ pc = .scan lowMod hiMod i := by
  cases pc <;> simp [GrowPc.tear]

theorem GrowPc.tear_eq_locking {freeIndex : Nat} :
    pc.tear index = .locking freeIndex ↔ pc = .locking freeIndex := by
  cases pc <;> simp [GrowPc.tear]

theorem GrowPc.tear_eq_installed : pc.tear index = .installed ↔ pc = .installed := by
  cases pc <;> simp [GrowPc.tear]

theorem GrowPc.tear_eq_snapshot {lowMod hiMod i : Nat} {torn : Bool}
    (torn' : pc.tear index = .snapshot lowMod hiMod i torn) :
    ∃ before, pc = .snapshot lowMod hiMod i before ∧ torn = (before || i == index) := by
  cases pc with
  | snapshot lowMod' hiMod' i' before =>
    simp only [GrowPc.tear, GrowPc.snapshot.injEq] at torn'
    obtain ⟨rfl, rfl, rfl, rfl⟩ := torn'
    exact ⟨before, rfl, rfl⟩
  | scan => simp [GrowPc.tear] at torn'
  | locking => simp [GrowPc.tear] at torn'
  | installed => simp [GrowPc.tear] at torn'

end Tear

/-- Entry `j` of the old table is still to be copied: it changed since the
watermarks were last reset, or the current pass has it ahead. -/
def GrowState.Pending (s : GrowState) (j : Nat) : Prop :=
  (s.isLowMod ≤ j ∧ j ≤ s.isHighMod) ∨ s.pc.Ahead j

/-- What holds of every state a growth of an old table of `osize` entries to
`size` entries passes through before the installation. -/
structure GrowInv (which : Nat → Bool) (osize size : Nat) (s : GrowState) : Prop where
  length : s.space.isTable.length = osize
  high : s.isHighMod < osize
  tableLength : s.table.length = size
  /-- Past the old part, the new table is what `ipc_space_rand_freelist` made. -/
  fresh : s.table =
    ipcSpaceRandFreelist which (s.table.take osize ++ List.replicate (size - osize) ⟨none, 0, 0⟩) osize size
  hash : HashExact s.table s.hash
  /-- Every old entry is copied as it now stands, or still pending. -/
  copied : ∀ j < osize, s.table[j]? = s.space.isTable[j]? ∨ s.Pending j
  scan : ∀ {lowMod hiMod i}, s.pc = .scan lowMod hiMod i → hiMod < osize
  /-- A torn snapshot is of an entry whose change is noted. -/
  snapshot : ∀ {lowMod hiMod i torn}, s.pc = .snapshot lowMod hiMod i torn →
    i ≤ hiMod ∧ hiMod < osize ∧ (torn = true → s.isLowMod ≤ i ∧ i ≤ s.isHighMod)
  walked : ∀ {freeIndex}, s.pc = .locking freeIndex → freeIndex = ipcEntryGrowFreeEnd s.table osize osize 0

section Inv

variable {which : Nat → Bool} {osize size : Nat} {s : GrowState}

/-- Writing an old entry into the new table keeps the rest of it as
`ipc_space_rand_freelist` made it. -/
theorem GrowInv.fresh_set (inv : GrowInv which osize size s) (pos : 0 < osize) (grows : osize < size)
    {i : Nat} (inside : i < osize) (e : IpcEntry) :
    s.table.set i e = ipcSpaceRandFreelist which
      ((s.table.set i e).take osize ++ List.replicate (size - osize) ⟨none, 0, 0⟩) osize size := by
  have prefixLength : (s.table.take osize).length = osize := by
    rw [List.length_take, inv.tableLength]
    omega
  rw [List.take_set, ← List.set_append_left _ _ (by omega), ipcSpaceRandFreelist_set_comm e pos inside,
    ← inv.fresh]

theorem GrowInv.modify (inv : GrowInv which osize size s) {index : Nat} (entry : IpcEntry) (free hashed : Nat)
    (inside : index < osize) : GrowInv which osize size (s.modify index entry free hashed) where
  length := by rw [GrowState.modify_isTable, List.length_set, inv.length]
  high := by
    have := inv.high
    simp only [GrowState.modify_isHighMod]
    omega
  tableLength := inv.tableLength
  fresh := inv.fresh
  hash := inv.hash
  copied := by
    intro j below
    simp only [GrowState.Pending, GrowState.modify_table, GrowState.modify_isTable,
      GrowState.modify_isLowMod, GrowState.modify_isHighMod, GrowState.modify_pc, GrowPc.ahead_tear]
    by_cases written : j = index
    · exact .inr (.inl ⟨by omega, by omega⟩)
    · rw [List.getElem?_set_ne (Ne.symm written)]
      rcases inv.copied j below with same | inWindow | ahead
      · exact .inl same
      · exact .inr (.inl ⟨by omega, by omega⟩)
      · exact .inr (.inr ahead)
  scan := fun hpc => inv.scan (GrowPc.tear_eq_scan.mp hpc)
  snapshot := by
    intro lowMod hiMod i torn hpc
    obtain ⟨before, reading, rfl⟩ := GrowPc.tear_eq_snapshot (show s.pc.tear index = _ from hpc)
    obtain ⟨le, lt, noted⟩ := inv.snapshot reading
    refine ⟨le, lt, fun tornNow => ?_⟩
    simp only [GrowState.modify_isLowMod, GrowState.modify_isHighMod]
    rcases Bool.or_eq_true_iff.mp tornNow with tornBefore | same
    · have := noted tornBefore
      omega
    · have := beq_iff_eq.mp same
      omega
  walked := fun hpc => inv.walked (GrowPc.tear_eq_locking.mp hpc)

theorem GrowInv.read (inv : GrowInv which osize size s) {lowMod hiMod i : Nat}
    (hpc : s.pc = .scan lowMod hiMod i) (le : i ≤ hiMod) :
    GrowInv which osize size { s with pc := .snapshot lowMod hiMod i false } where
  length := inv.length
  high := inv.high
  tableLength := inv.tableLength
  fresh := inv.fresh
  hash := inv.hash
  copied := by
    intro j below
    rcases inv.copied j below with same | inWindow | ahead
    · exact .inl same
    · exact .inr (.inl inWindow)
    · rw [hpc] at ahead
      exact .inr (.inr ahead)
  scan := fun hpc' => by cases hpc'
  snapshot := by
    intro lowMod' hiMod' i' torn hpc'
    simp only [GrowPc.snapshot.injEq] at hpc'
    obtain ⟨rfl, rfl, rfl, rfl⟩ := hpc'
    exact ⟨le, inv.scan hpc, fun tornNow => by cases tornNow⟩
  walked := fun hpc' => by cases hpc'

theorem GrowInv.copy (inv : GrowInv which osize size s) (pos : 0 < osize) (grows : osize < size)
    {lowMod hiMod i : Nat} {torn : Bool} (hpc : s.pc = .snapshot lowMod hiMod i torn) (osnap : IpcEntry)
    (clean : torn = false → osnap = s.space.isTable.getD i ⟨none, 0, 0⟩) :
    GrowInv which osize size
      { s with
        table := (ipcEntryGrowCopy s.table s.hash i osnap).1,
        hash := (ipcEntryGrowCopy s.table s.hash i osnap).2, pc := .scan lowMod hiMod (i + 1) } := by
  obtain ⟨le, lt, noted⟩ := inv.snapshot hpc
  have inside : i < s.table.length := by rw [inv.tableLength]; omega
  refine ⟨inv.length, inv.high, ?_, ?_, ?_, ?_, ?_, (fun hpc' => by cases hpc'), (fun hpc' => by cases hpc')⟩
  · rw [ipcEntryGrowCopy_fst, List.length_set, inv.tableLength]
  · rw [ipcEntryGrowCopy_fst]
    exact inv.fresh_set pos grows (by omega) osnap
  · rw [ipcEntryGrowCopy_fst]
    exact ipcEntryGrowCopy_hashExact osnap inside inv.hash
  · intro j below
    simp only [ipcEntryGrowCopy_fst, GrowState.Pending, GrowPc.Ahead]
    by_cases atI : j = i
    · subst atI
      cases torn with
      | false =>
        left
        rw [List.getElem?_set_self inside, clean rfl, List.getD_eq_getElem _ _ (by rw [inv.length]; omega),
          List.getElem?_eq_getElem (by rw [inv.length]; omega)]
      | true => exact .inr (.inl (noted rfl))
    · rw [List.getElem?_set_ne (Ne.symm atI)]
      rcases inv.copied j below with same | inWindow | ahead
      · exact .inl same
      · exact .inr (.inl inWindow)
      · rw [hpc] at ahead
        exact .inr (.inr ⟨by have := ahead.1; omega, ahead.2⟩)
  · intro lowMod' hiMod' i' hpc'
    simp only [GrowPc.scan.injEq] at hpc'
    obtain ⟨-, rfl, -⟩ := hpc'
    exact lt

theorem GrowInv.rebase (inv : GrowInv which osize size s) (pos : 0 < osize) (grows : osize < size)
    {lowMod hiMod i : Nat} (hpc : s.pc = .scan lowMod hiMod i) (done : hiMod < i) :
    GrowInv which osize size (ipcEntryGrowRebase osize s) := by
  have inside : 0 < s.table.length := by rw [inv.tableLength]; omega
  -- the rebase writes `ie_next` of slot 0 only
  set head := (s.space.isTable.getD 0 ⟨none, 0, 0⟩).ieNext
  have rebased : s.table.modify 0 (fun e => { e with ieNext := head }) =
      s.table.set 0 { s.table[0] with ieNext := head } :=
    List.modify_eq_set_get _ inside
  refine ⟨inv.length, inv.high, ?_, ?_, ?_, ?_, (fun hpc' => by cases hpc'), (fun hpc' => by cases hpc'), ?_⟩
  · simp only [ipcEntryGrowRebase, List.length_modify, inv.tableLength]
  · simp only [ipcEntryGrowRebase]
    rw [rebased]
    exact inv.fresh_set pos grows pos _
  · exact inv.hash.modify 0 fun e => rfl
  · intro j below
    have noAhead : ¬ s.pc.Ahead j := by
      rw [hpc]
      simp only [GrowPc.Ahead]
      omega
    simp only [ipcEntryGrowRebase, GrowState.Pending, GrowPc.Ahead, or_false]
    rcases inv.copied j below with same | inWindow | ahead
    · left
      by_cases atZero : j = 0
      · subst atZero
        rw [List.getElem?_modify_eq, same]
        cases found : s.space.isTable[0]? with
        | none => rfl
        | some e => simp [List.getD_eq_getElem?_getD, found]
      · rw [List.getElem?_modify_ne _ _ (Ne.symm atZero)]
        exact same
    · exact .inr inWindow
    · exact absurd ahead noAhead
  · intro freeIndex hpc'
    simp only [ipcEntryGrowRebase, GrowPc.locking.injEq] at hpc'
    exact hpc'.symm

theorem GrowInv.rescan (inv : GrowInv which osize size s) (pos : 0 < osize) {freeIndex : Nat}
    (hpc : s.pc = .locking freeIndex) :
    GrowInv which osize size
      { s with isLowMod := osize, isHighMod := 0, pc := .scan s.isLowMod s.isHighMod s.isLowMod } where
  length := inv.length
  high := pos
  tableLength := inv.tableLength
  fresh := inv.fresh
  hash := inv.hash
  copied := by
    intro j below
    rcases inv.copied j below with same | inWindow | ahead
    · exact .inl same
    · exact .inr (.inr inWindow)
    · rw [hpc] at ahead
      exact ahead.elim
  scan := by
    intro lowMod hiMod i hpc'
    simp only [GrowPc.scan.injEq] at hpc'
    obtain ⟨-, rfl, -⟩ := hpc'
    exact inv.high
  snapshot := fun hpc' => by cases hpc'
  walked := fun hpc' => by cases hpc'

theorem GrowInv.step (inv : GrowInv which osize size s) (pos : 0 < osize) (grows : osize < size)
    {next : Nat} {s' : GrowState} (step : GrowStep osize size next s s') (running : s'.pc ≠ .installed) :
    GrowInv which osize size s' := by
  cases step with
  | other entry free hashed _ inside => exact inv.modify entry free hashed inside
  | grower step =>
    cases step with
    | read hpc le => exact inv.read hpc le
    | copy osnap hpc clean => exact inv.copy pos grows hpc osnap clean
    | rebase hpc done => exact inv.rebase pos grows hpc done
    | relock hpc =>
      unfold ipcEntryGrowRelock at running ⊢
      split_ifs at running ⊢
      · exact inv.rescan pos hpc
      · exact absurd rfl running

/-- A relock that finds no change noted finds every old entry copied as it
now stands. -/
theorem GrowInv.copied_all (inv : GrowInv which osize size s) {freeIndex : Nat}
    (hpc : s.pc = .locking freeIndex) (unchanged : ¬ s.isLowMod < osize) :
    ∀ j < osize, s.table[j]? = s.space.isTable[j]? := by
  intro j below
  rcases inv.copied j below with same | ⟨low, -⟩ | ahead
  · exact same
  · omega
  · rw [hpc] at ahead
    exact ahead.elim

/-- The table such a relock installs is the one the sequential growth builds
from the old table as it now stands. -/
theorem GrowInv.installTable (inv : GrowInv which osize size s) {freeIndex : Nat}
    (hpc : s.pc = .locking freeIndex) (unchanged : ¬ s.isLowMod < osize) :
    s.table = ipcSpaceRandFreelist which
      (s.space.isTable ++ List.replicate (size - osize) ⟨none, 0, 0⟩) osize size := by
  have copiedAll : s.table.take osize = s.space.isTable := by
    apply List.ext_getElem?
    intro j
    rw [List.getElem?_take]
    split_ifs with below
    · exact inv.copied_all hpc unchanged j below
    · rw [List.getElem?_eq_none (by rw [inv.length]; omega)]
  calc s.table = ipcSpaceRandFreelist which
        (s.table.take osize ++ List.replicate (size - osize) ⟨none, 0, 0⟩) osize size := inv.fresh
    _ = _ := by rw [copiedAll]

theorem GrowInv.install_eq_growTo (inv : GrowInv which osize size s) (grows : osize < size)
    {its : List Nat} {next : Nat} (found : its[next]? = some size) {freeIndex : Nat}
    (hpc : s.pc = .locking freeIndex) (unchanged : ¬ s.isLowMod < osize) :
    ipcEntryGrowTo its which s.space next =
      some (.success, (ipcEntryGrowRelock osize size next s freeIndex).space) := by
  have table := inv.installTable hpc unchanged
  have walk := inv.walked hpc
  rw [ipcEntryGrowRelock, if_neg unchanged]
  simp only [ipcEntryGrowTo, found, inv.length, if_neg (Nat.ne_of_lt grows), ← table, ← walk]

end Inv

/-- The state a growth starts from keeps the invariant. -/
theorem growInv_start {which : Nat → Bool} {space : IpcSpace} {size : Nat}
    (pos : 0 < space.isTable.length) (grows : space.isTable.length < size) :
    GrowInv which space.isTable.length size (ipcEntryGrowStart which space size) := by
  have objects : ∀ e ∈ ipcSpaceRandFreelist which (List.replicate size ⟨none, 0, 0⟩)
      space.isTable.length size, e.ieObject = none := by
    simp only [ipcSpaceRandFreelist, if_neg (Nat.ne_of_gt pos)]
    exact ipcSpaceRandFreelistLoop_forall which (fun n => rfl)
      (fun e mem => (List.eq_of_mem_replicate mem) ▸ rfl)
  refine ⟨rfl, pos, ?_, ?_, ?_, ?_, ?_, (fun hpc => by cases hpc), (fun hpc => by cases hpc)⟩
  · simp only [ipcEntryGrowStart, ipcSpaceRandFreelist_length pos, List.length_replicate]
  · simp only [ipcEntryGrowStart]
    rw [ipcSpaceRandFreelist_take pos (by simp only [List.length_replicate]; omega), List.take_replicate,
      ← List.replicate_add, Nat.min_eq_left grows.le, Nat.add_sub_cancel' grows.le]
  · -- a fresh table holds no object, so no send right
    intro obj i
    simp only [ipcEntryGrowStart, Finset.notMem_empty, false_iff]
    cases found : (ipcSpaceRandFreelist which (List.replicate size ⟨none, 0, 0⟩)
        space.isTable.length size)[i]? with
    | none => simp
    | some e =>
      have noObject := objects e (List.mem_of_getElem? found)
      simp [IpcEntry.sendObject, noObject]
  · intro j below
    simp only [GrowState.Pending, ipcEntryGrowStart, GrowPc.Ahead]
    exact .inr (.inr ⟨Nat.zero_le j, by omega⟩)
  · intro lowMod hiMod i hpc
    simp only [ipcEntryGrowStart, GrowPc.scan.injEq] at hpc
    omega

theorem GrowStep.running {osize size next : Nat} {s s' : GrowState}
    (step : GrowStep osize size next s s') : s.pc ≠ .installed := by
  cases step with
  | other _ _ _ running _ => exact running
  | grower step =>
    cases step with
    | read hpc _ => rw [hpc]; exact nofun
    | copy _ hpc _ => rw [hpc]; exact nofun
    | rebase hpc _ => rw [hpc]; exact nofun
    | relock hpc => rw [hpc]; exact nofun

/-- Every state a growth passes through before the installation keeps the
invariant, in any interleaving. -/
theorem growInv_reach {which : Nat → Bool} {space : IpcSpace} {size next : Nat}
    (pos : 0 < space.isTable.length) (grows : space.isTable.length < size) {s : GrowState}
    (reach : GrowReach which space size next s) (running : s.pc ≠ .installed) :
    GrowInv which space.isTable.length size s := by
  unfold GrowReach at reach
  induction reach with
  | refl => exact growInv_start pos grows
  | tail _ step ih => exact (ih step.running).step pos grows step running

/-- The step that installs is a relock that found no change. -/
theorem GrowStep.installs {osize size next : Nat} {s s' : GrowState}
    (step : GrowStep osize size next s s') (done : s'.pc = .installed) :
    ∃ freeIndex, s.pc = .locking freeIndex ∧ ¬ s.isLowMod < osize ∧
      s' = ipcEntryGrowRelock osize size next s freeIndex := by
  cases step with
  | other _ _ _ running _ => exact absurd (GrowPc.tear_eq_installed.mp done) running
  | grower step =>
    cases step with
    | read _ _ => cases done
    | copy _ _ _ => cases done
    | rebase _ _ => cases done
    | relock hpc =>
      refine ⟨_, hpc, fun changed => ?_, rfl⟩
      rw [ipcEntryGrowRelock, if_pos changed] at done
      cases done

/-! Once the other threads stop, the grower installs. -/

section Alone

variable {osize size next : Nat}

/-- A pass the grower runs alone reaches the relock, with the watermarks as
they were. -/
theorem growerScan_finishes : ∀ (n : Nat) {s : GrowState} {lowMod hiMod i : Nat},
    s.pc = .scan lowMod hiMod i → hiMod + 1 - i = n →
    ∃ s' freeIndex, Relation.ReflTransGen (GrowerStep osize size next) s s' ∧
      s'.pc = .locking freeIndex ∧ s'.isLowMod = s.isLowMod := by
  intro n
  induction n with
  | zero =>
    intro s lowMod hiMod i hpc done
    exact ⟨_, _, .single (.rebase hpc (by omega)), rfl, rfl⟩
  | succ n ih =>
    intro s lowMod hiMod i hpc left
    -- entry `i` is read and copied as it stands
    obtain ⟨s', freeIndex, run, locked, low⟩ := ih (s := { s with
        table := (ipcEntryGrowCopy s.table s.hash i (s.space.isTable.getD i ⟨none, 0, 0⟩)).1,
        hash := (ipcEntryGrowCopy s.table s.hash i (s.space.isTable.getD i ⟨none, 0, 0⟩)).2,
        pc := .scan lowMod hiMod (i + 1) }) rfl (by omega)
    exact ⟨s', freeIndex, .head (.read hpc (by omega)) (.head (.copy _ rfl fun _ => rfl) run), locked, low⟩

theorem growerRelock_installs {s : GrowState} {freeIndex : Nat} (hpc : s.pc = .locking freeIndex) :
    ∃ s', Relation.ReflTransGen (GrowerStep osize size next) s s' ∧ s'.pc = .installed := by
  by_cases changed : s.isLowMod < osize
  · -- one more pass, after which nothing is noted
    have rescan : (ipcEntryGrowRelock osize size next s freeIndex).pc = .scan s.isLowMod s.isHighMod s.isLowMod := by
      rw [ipcEntryGrowRelock, if_pos changed]
    obtain ⟨s', freeIndex', run, locked, low⟩ :
        ∃ s' freeIndex', Relation.ReflTransGen (GrowerStep osize size next) _ s' ∧
          s'.pc = .locking freeIndex' ∧ s'.isLowMod = _ :=
      growerScan_finishes _ rescan rfl
    have reset : s'.isLowMod = osize := by
      rw [low, ipcEntryGrowRelock, if_pos changed]
    refine ⟨_, .head (.relock hpc) (run.tail (.relock locked)), ?_⟩
    rw [ipcEntryGrowRelock, if_neg (by omega)]
  · exact ⟨_, .single (.relock hpc), by rw [ipcEntryGrowRelock, if_neg changed]⟩

/-- Alone, the grower installs from every state. -/
theorem grower_installs (s : GrowState) (running : s.pc ≠ .installed) :
    ∃ s', Relation.ReflTransGen (GrowerStep osize size next) s s' ∧ s'.pc = .installed := by
  have fromScan : ∀ {s : GrowState} {lowMod hiMod i : Nat}, s.pc = .scan lowMod hiMod i →
      ∃ s', Relation.ReflTransGen (GrowerStep osize size next) s s' ∧ s'.pc = .installed := by
    intro s lowMod hiMod i hpc
    obtain ⟨s', freeIndex, run, locked, -⟩ := growerScan_finishes _ hpc rfl
    obtain ⟨s'', rest, done⟩ := growerRelock_installs locked
    exact ⟨s'', run.trans rest, done⟩
  cases hpc : s.pc with
  | scan lowMod hiMod i => exact fromScan hpc
  | snapshot lowMod hiMod i torn =>
    obtain ⟨s', run, done⟩ := fromScan (s := { s with
        table := (ipcEntryGrowCopy s.table s.hash i (s.space.isTable.getD i ⟨none, 0, 0⟩)).1,
        hash := (ipcEntryGrowCopy s.table s.hash i (s.space.isTable.getD i ⟨none, 0, 0⟩)).2,
        pc := .scan lowMod hiMod (i + 1) }) rfl
    exact ⟨s', .head (.copy _ hpc fun _ => rfl) run, done⟩
  | locking freeIndex => exact growerRelock_installs hpc
  | installed => exact absurd hpc running

end Alone

/-- `ipc_entry_grow_table` growing `space` to `ipc_table_entries[next]`, of
`size` entries, while other threads write the old table and note each write
with `ipc_entry_modified`. In every interleaving, the step that installs the
new table installs the sequential growth of the space as it stands at that
instant: the old entries as they are then, except that the last node `p` of
the old free list is linked to `osize`; the free list then runs on through
the new slots; `is_table_free` grows by `size - osize`; and the reverse hash
holds exactly the send rights. Once the other threads stop, the grower
installs. -/
theorem ipcEntryGrowTable_copy_linearizable (which : Nat → Bool) {its : List Nat} {space : IpcSpace}
    {next size : Nat} (found : its[next]? = some size) (nonempty : 0 < space.isTable.length)
    (grows : space.isTable.length < size) :
    (∀ s s', GrowReach which space size next s → GrowStep space.isTable.length size next s s' →
      s'.pc = .installed →
        ipcEntryGrowTo its which s.space next = some (.success, s'.space) ∧
        HashExact s'.space.isTable s'.hash ∧
        s'.space.isTableFree = s.space.isTableFree + (size - space.isTable.length) ∧
        ∀ free, s.space.FreeList free → ∃ p added,
          Segment (IpcEntry.link s.space.isTable) 0 free p ∧ IpcEntry.link s.space.isTable p = some 0 ∧
          (∀ j < space.isTable.length, s'.space.isTable[j]? =
            s.space.isTable[j]?.map fun e => if j = p then { e with ieNext := space.isTable.length } else e) ∧
          (∀ i, i ∈ added ↔ space.isTable.length ≤ i ∧ i < size) ∧ s'.space.FreeList (free ++ added)) ∧
    ∀ s, GrowReach which space size next s → s.pc ≠ .installed →
      ∃ s', Relation.ReflTransGen (GrowerStep space.isTable.length size next) s s' ∧ s'.pc = .installed := by
  refine ⟨fun s s' reach step done => ?_, fun s _ running => grower_installs s running⟩
  obtain ⟨freeIndex, hpc, unchanged, rfl⟩ := step.installs done
  have inv := growInv_reach nonempty grows reach step.running
  have growTo := inv.install_eq_growTo grows found hpc unchanged
  refine ⟨growTo, ?_, by rw [ipcEntryGrowRelock, if_neg unchanged], fun free valid => ?_⟩
  · rw [ipcEntryGrowRelock, if_neg unchanged]
    exact inv.hash.modify freeIndex fun e => rfl
  have grows' : s.space.isTable.length < size := by rw [inv.length]; exact grows
  obtain ⟨p, segment, stop, walk⟩ := valid.growFreeEnd which grows'
  obtain ⟨grown, added, run, members, grownValid, -⟩ := valid.growTo_spec which found grows'
  rw [growTo, Option.some.injEq, Prod.mk.injEq] at run
  -- the walk the grower made over its copy is the walk over the old table
  have atEnd : freeIndex = p := by
    rw [inv.walked hpc, inv.installTable hpc unchanged, ← walk, inv.length]
  refine ⟨p, added, segment, stop, fun j below => ?_, by rwa [inv.length] at members, run.2 ▸ grownValid⟩
  rw [ipcEntryGrowRelock, if_neg unchanged]
  simp only [List.getElem?_modify, inv.copied_all hpc unchanged j below, atEnd]
  cases s.space.isTable[j]? with
  | none => rfl
  | some e =>
    by_cases atP : j = p
    · simp [atP]
    · simp [atP, Ne.symm atP]

/-- A space of one entry, the head, with an empty free list. -/
def oneEntrySpace : IpcSpace := ⟨[⟨none, 0, 0⟩], 0, 0, 1⟩

/-- A space of two entries, the head and one free entry. -/
def twoEntrySpace : IpcSpace := ⟨[⟨none, 0, 1⟩, ⟨none, 0xff000000, 0⟩], 1, 0, 1⟩

/-- A growth of `twoEntrySpace` to 4 entries that another thread interrupts:
while the grower snapshots entry 1, the thread writes a send right into it,
tearing the snapshot, and then takes it off the free list at the head. The
grower rescans both entries, and the table it installs is the sequential growth
of the space as the thread left it. -/
theorem ipcEntryGrowTable_copy_linearizable_torn :
    ∃ s s', GrowReach (fun _ => false) twoEntrySpace 4 1 s ∧ GrowStep 2 4 1 s s' ∧ s'.pc = .installed ∧
      s.space.isTable = [⟨none, 0, 0⟩, ⟨some 7, 0x00010000, 0⟩] ∧
      ipcEntryGrowTo [2, 4, 4] (fun _ => false) s.space 1 = some (.success, s'.space) ∧
      HashExact s'.space.isTable s'.hash ∧
      s'.space.isTableFree = s.space.isTableFree + (4 - twoEntrySpace.isTable.length) ∧
      ∀ free, s.space.FreeList free → ∃ p added,
        Segment (IpcEntry.link s.space.isTable) 0 free p ∧ IpcEntry.link s.space.isTable p = some 0 ∧
        (∀ j < twoEntrySpace.isTable.length, s'.space.isTable[j]? =
          s.space.isTable[j]?.map fun e => if j = p then { e with ieNext := twoEntrySpace.isTable.length } else e) ∧
        (∀ i, i ∈ added ↔ twoEntrySpace.isTable.length ≤ i ∧ i < 4) ∧ s'.space.FreeList (free ++ added) := by
  have start : GrowReach (fun _ => false) twoEntrySpace 4 1 (ipcEntryGrowStart (fun _ => false) twoEntrySpace 4) :=
    .refl
  -- the first pass copies the head, then the write to entry 1 tears its snapshot
  have torn := ((start.tail (.grower (.read rfl (by decide)))).tail
    (.grower (.copy ⟨none, 0, 1⟩ rfl fun _ => rfl))).tail (.grower (.read rfl (by decide)))
  have written := torn.tail (@GrowStep.other 2 4 1 _ 1 ⟨some 7, 0x00010000, 0⟩ 0 1 (by decide) (by decide))
  have copied := written.tail (.grower (.copy ⟨some 9, 0x00020000, 5⟩ rfl fun untorn => by simp at untorn))
  have claimed := copied.tail (@GrowStep.other 2 4 1 _ 0 ⟨none, 0, 0⟩ 0 1 (by decide) (by decide))
  -- the relock sees the watermarks and sends the grower back over entries 0 and 1
  have rescan := (claimed.tail (.grower (.rebase rfl (by decide)))).tail (.grower (.relock rfl))
  have recopied := (((rescan.tail (.grower (.read rfl (by decide)))).tail
    (.grower (.copy ⟨none, 0, 0⟩ rfl fun _ => rfl))).tail (.grower (.read rfl (by decide)))).tail
    (.grower (.copy ⟨some 7, 0x00010000, 0⟩ rfl fun _ => rfl))
  have rebased := recopied.tail (.grower (.rebase rfl (by decide)))
  have installed := (ipcEntryGrowTable_copy_linearizable (fun _ => false)
    (by decide : [2, 4, 4][1]? = some 4) (by decide) (by decide)).1 _ _ rebased (.grower (.relock rfl)) (by decide)
  exact ⟨_, _, rebased, .grower (.relock rfl), by decide, by decide, installed⟩

/-- The installation changes an old entry: with no other thread at all, the
head of an empty free list, slot 0, is linked to the first new slot. -/
theorem ipcEntryGrowTable_links_old_head :
    ∃ s s', GrowReach (fun _ => false) oneEntrySpace 2 1 s ∧ GrowStep 1 2 1 s s' ∧ s'.pc = .installed ∧
      s.space.isTable[0]? = some ⟨none, 0, 0⟩ ∧ s'.space.isTable[0]? = some ⟨none, 0, 1⟩ :=
  ⟨_, _, .tail (.tail (.tail .refl (.grower (.read rfl (Nat.zero_le _))))
      (.grower (.copy ⟨none, 0, 0⟩ rfl fun _ => rfl))) (.grower (.rebase rfl Nat.zero_lt_one)),
    .grower (.relock rfl), by decide, by decide, by decide⟩

end Xnu.Ipc
