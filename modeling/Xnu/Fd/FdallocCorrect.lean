import Xnu.Fd.Filedesc

namespace Xnu.Fd

/-! The fd table's invariant, kept by `fdalloc`, by storing a new file in a
reserved slot, by `procfdtbl_releasefd` of a reserved slot that then holds a
file, and by `fdrelse`; and `fdalloc`'s result on a table that keeps it. -/

open Filedesc

variable {φ : Type}

section Slots

theorem getD_append_replicate {α : Type} (l : List α) (k fd : Nat) (d : α) :
    (l ++ List.replicate k d).getD fd d = l.getD fd d := by
  rw [List.getD_eq_getElem?_getD, List.getD_eq_getElem?_getD]
  by_cases inside : fd < l.length
  · rw [List.getElem?_append_left inside]
  · rw [List.getElem?_append_right (by omega), List.getElem?_replicate, List.getElem?_eq_none (by omega)]
    split <;> rfl

theorem getD_set_of_ne {α : Type} (l : List α) {i j : Nat} (a d : α) (apart : i ≠ j) :
    (l.set i a).getD j d = l.getD j d := by
  rw [List.getD_eq_getElem?_getD, List.getD_eq_getElem?_getD, List.getElem?_set, if_neg apart]

theorem getD_set_self {α : Type} (l : List α) {i : Nat} (a d : α) (inside : i < l.length) :
    (l.set i a).getD i d = a := by
  rw [List.getD_eq_getElem?_getD, List.getElem?_set, if_pos rfl, if_pos inside]
  rfl

/-- Slot `fd` reads the same in both tables; past the end of an array a slot
reads as `NULL` with no flags. -/
def SameSlot (fdp fdp' : Filedesc φ) (fd : Nat) : Prop :=
  fdp'.ofiles.getD fd none = fdp.ofiles.getD fd none ∧ fdp'.ofileflags.getD fd 0 = fdp.ofileflags.getD fd 0

theorem SameSlot.isFree {fdp fdp' : Filedesc φ} {fd : Nat} (same : SameSlot fdp fdp' fd) :
    fdp'.isFree fd = fdp.isFree fd := by
  unfold Filedesc.isFree
  rw [same.1, same.2]

theorem SameSlot.trans {fdp fdp' fdp'' : Filedesc φ} {fd : Nat} (first : SameSlot fdp fdp' fd)
    (second : SameSlot fdp' fdp'' fd) : SameSlot fdp fdp'' fd :=
  ⟨second.1.trans first.1, second.2.trans first.2⟩

theorem isFree_of_length_le {fdp : Filedesc φ} {fd : Nat} (files : fdp.ofiles.length ≤ fd)
    (flags : fdp.ofileflags.length ≤ fd) : fdp.isFree fd = true := by
  unfold Filedesc.isFree
  rw [List.getD_eq_getElem?_getD, List.getD_eq_getElem?_getD, List.getElem?_eq_none files,
    List.getElem?_eq_none flags]
  rfl

/-- `UF_RESERVED` set on a slot's flags. -/
def Filedesc.reserved (fdp : Filedesc φ) (fd : Nat) : Prop := fdp.ofileflags.getD fd 0 &&& ufReserved ≠ 0

theorem isFree_of_reserved {fdp : Filedesc φ} {fd : Nat} (held : fdp.reserved fd) : fdp.isFree fd = false := by
  unfold Filedesc.isFree
  rw [beq_eq_false_iff_ne.mpr held, Bool.and_false]

end Slots

/-- A table whose arrays hold `fd_nfiles` entries, in which every fd below
`fd_freefile` is in use and every fd in use is at most `fd_lastfile`, which is
below `fd_nfiles`. -/
structure FdOk (fdp : Filedesc φ) : Prop where
  ofiles_length : fdp.ofiles.length = fdp.nfiles
  flags_length : fdp.ofileflags.length = fdp.nfiles
  below_free : ∀ fd < fdp.freefile, fdp.isFree fd = false
  le_last : ∀ fd, fdp.isFree fd = false → (fd : Int) ≤ fdp.lastfile
  last_lt : fdp.lastfile < fdp.nfiles

theorem FdOk.lt_nfiles {fdp : Filedesc φ} (ok : FdOk fdp) {fd : Nat} (used : fdp.isFree fd = false) :
    fd < fdp.nfiles := by
  have below := ok.le_last fd used
  have := ok.last_lt
  omega

/-- A table that frees and uses the same slots as a sound one, with the same
sizes and marks, is sound. -/
theorem FdOk.of_isFree_eq {fdp fdp' : Filedesc φ} (ok : FdOk fdp) (same : ∀ fd, fdp'.isFree fd = fdp.isFree fd)
    (files : fdp'.ofiles.length = fdp.ofiles.length) (flags : fdp'.ofileflags.length = fdp.ofileflags.length)
    (nfiles : fdp'.nfiles = fdp.nfiles) (lastfile : fdp'.lastfile = fdp.lastfile)
    (freefile : fdp'.freefile = fdp.freefile) : FdOk fdp' := by
  refine ⟨by rw [files, nfiles, ok.ofiles_length], by rw [flags, nfiles, ok.flags_length], fun fd below => ?_,
    fun fd used => ?_, by rw [lastfile, nfiles]; exact ok.last_lt⟩
  · rw [same]
    exact ok.below_free fd (freefile ▸ below)
  · rw [same] at used
    rw [lastfile]
    exact ok.le_last fd used

section Alloc

theorem scanFree_some {fdp : Filedesc φ} {j : Nat} : ∀ {i k : Nat}, fdp.scanFree i k = some j →
    i ≤ j ∧ j < i + k ∧ fdp.isFree j = true ∧ ∀ j', i ≤ j' → j' < j → fdp.isFree j' = false
  | _, 0, found => by cases found
  | i, k + 1, found => by
    unfold Filedesc.scanFree at found
    by_cases here : fdp.isFree i = true
    · rw [if_pos here] at found
      cases found
      exact ⟨Nat.le_refl _, by omega, here, fun j' above below => absurd below (by omega)⟩
    · rw [if_neg here] at found
      obtain ⟨above, below, free, skipped⟩ := scanFree_some found
      refine ⟨by omega, by omega, free, fun j' from' upto => ?_⟩
      by_cases first : j' = i
      · subst first
        simpa using here
      · exact skipped j' (by omega) upto

theorem scanFree_none {fdp : Filedesc φ} : ∀ {i k : Nat}, fdp.scanFree i k = none →
    ∀ j, i ≤ j → j < i + k → fdp.isFree j = false
  | _, 0, _, j, above, below => absurd below (by omega)
  | i, k + 1, missed, j, above, below => by
    unfold Filedesc.scanFree at missed
    by_cases here : fdp.isFree i = true
    · rw [if_pos here] at missed
      cases missed
    · rw [if_neg here] at missed
      by_cases first : j = i
      · subst first
        simpa using here
      · exact scanFree_none missed j (by omega) (by omega)

theorem expand_sameSlot {fdp : Filedesc φ} (ok : FdOk fdp) (numfiles fd : Nat) :
    SameSlot fdp (fdp.expand numfiles) fd := by
  unfold SameSlot Filedesc.expand
  dsimp only
  rw [List.take_of_length_le (by rw [ok.ofiles_length]), List.take_of_length_le (by rw [ok.flags_length]),
    getD_append_replicate, getD_append_replicate]
  exact ⟨rfl, rfl⟩

theorem FdOk.expand {fdp : Filedesc φ} (ok : FdOk fdp) {numfiles : Nat} (larger : fdp.nfiles ≤ numfiles) :
    FdOk (fdp.expand numfiles) := by
  refine ⟨?_, ?_, fun fd below => ?_, fun fd used => ?_, ?_⟩
  · simp only [Filedesc.expand, List.length_append, List.length_take, List.length_replicate, ok.ofiles_length]
    omega
  · simp only [Filedesc.expand, List.length_append, List.length_take, List.length_replicate, ok.flags_length]
    omega
  · rw [(expand_sameSlot ok numfiles fd).isFree]
    exact ok.below_free fd below
  · rw [(expand_sameSlot ok numfiles fd).isFree] at used
    exact ok.le_last fd used
  · show fdp.lastfile < numfiles
    have := ok.last_lt
    omega

/-- Reserving the fd the scan found, the least free one from
`MAX(want, fd_freefile)`, keeps the table sound and changes no other slot. -/
theorem FdOk.take {fdp : Filedesc φ} (ok : FdOk fdp) {want i : Nat} (inside : i < fdp.nfiles)
    (start : max want fdp.freefile ≤ i)
    (before : ∀ fd, max want fdp.freefile ≤ fd → fd < i → fdp.isFree fd = false) :
    FdOk (fdp.take want i) ∧ (fdp.take want i).reserved i ∧ ∀ fd ≠ i, SameSlot fdp (fdp.take want i) fd := by
  have flat : fdp.take want i = ⟨fdp.ofiles.set i none,
      fdp.ofileflags.set i (fdp.ofileflags.getD i 0 ||| ufReserved), fdp.nfiles, max fdp.lastfile i,
      if want ≤ fdp.freefile then i else fdp.freefile⟩ := by
    dsimp only [Filedesc.take, Filedesc.reservefd]
    by_cases raise : (i : Int) > fdp.lastfile <;> by_cases moves : want ≤ fdp.freefile <;>
      simp [raise, moves, max_def] <;> omega
  have files : (fdp.take want i).ofiles = fdp.ofiles.set i none := by rw [flat]
  have flags : (fdp.take want i).ofileflags = fdp.ofileflags.set i (fdp.ofileflags.getD i 0 ||| ufReserved) := by
    rw [flat]
  have nfiles : (fdp.take want i).nfiles = fdp.nfiles := by rw [flat]
  have lastfile : (fdp.take want i).lastfile = max fdp.lastfile i := by rw [flat]
  have freefile : (fdp.take want i).freefile = if want ≤ fdp.freefile then i else fdp.freefile := by rw [flat]
  have others : ∀ fd ≠ i, SameSlot fdp (fdp.take want i) fd := fun fd apart =>
    ⟨by rw [files, getD_set_of_ne _ _ _ (Ne.symm apart)], by rw [flags, getD_set_of_ne _ _ _ (Ne.symm apart)]⟩
  have held : (fdp.take want i).reserved i := by
    unfold Filedesc.reserved
    rw [flags, getD_set_self _ _ _ (by rw [ok.flags_length]; exact inside)]
    generalize fdp.ofileflags.getD i 0 = old
    revert old
    decide +kernel
  have taken := isFree_of_reserved held
  refine ⟨⟨by rw [files, List.length_set, ok.ofiles_length, nfiles], by rw [flags, List.length_set, ok.flags_length, nfiles],
    fun fd below => ?_, fun fd used => ?_, by rw [lastfile, nfiles]; have := ok.last_lt; omega⟩, held, others⟩
  · -- below the new `fd_freefile`: in use before and untouched, or the fd just taken
    rw [freefile] at below
    have apart : fd ≠ i := by split at below <;> omega
    rw [(others fd apart).isFree]
    by_cases old : fd < fdp.freefile
    · exact ok.below_free fd old
    · exact before fd (by split at below <;> omega) (by split at below <;> omega)
  · rw [lastfile]
    by_cases same : fd = i
    · subst same
      omega
    · rw [(others fd same).isFree] at used
      have := ok.le_last fd used
      omega

/-- `fd` is the least fd at or past `want`, below `lim`, that is not in use. -/
def IsLeastFree (fdp : Filedesc φ) (want lim fd : Nat) : Prop :=
  want ≤ fd ∧ fd < lim ∧ fdp.isFree fd = true ∧ ∀ fd', want ≤ fd' → fd' < fd → fdp.isFree fd' = false

/-- What `fdalloc` returns on a sound table: the least fd at or past `want`
below the limit that is not in use, reserved, with no other slot changed; on
an error no slot changed; `EMFILE` only when there is no such fd, and always
then when the table can grow; `ENOMEM` only when it cannot. -/
structure AllocSpec (fdp : Filedesc φ) (lim : Nat) (allocOk : Bool) (want : Nat)
    (r : Filedesc φ × Except FdError Nat) : Prop where
  ok_least : ∀ fd, r.2 = .ok fd →
    IsLeastFree fdp want lim fd ∧ FdOk r.1 ∧ r.1.reserved fd ∧ ∀ fd' ≠ fd, SameSlot fdp r.1 fd'
  failed : ∀ e, r.2 = .error e → FdOk r.1 ∧ ∀ fd, SameSlot fdp r.1 fd
  emfile_none : r.2 = .error .emfile → ∀ fd, want ≤ fd → fd < lim → fdp.isFree fd = false
  emfile_of_none : allocOk = true → (∀ fd, want ≤ fd → fd < lim → fdp.isFree fd = false) → r.2 = .error .emfile
  enomem : r.2 = .error .enomem → allocOk = false

/-- The free slots of a table and of its expansion are the same. -/
theorem AllocSpec.of_expand {fdp : Filedesc φ} (ok : FdOk fdp) {lim numfiles want : Nat} {allocOk : Bool}
    {r : Filedesc φ × Except FdError Nat} (spec : AllocSpec (fdp.expand numfiles) lim allocOk want r) :
    AllocSpec fdp lim allocOk want r := by
  have same := expand_sameSlot ok numfiles
  refine ⟨fun fd got => ?_, fun e failed => ?_, fun emfile fd above below => ?_,
    fun alloc nothing => spec.emfile_of_none alloc fun fd above below => ?_, spec.enomem⟩
  · obtain ⟨⟨above, below, free, skipped⟩, rOk, held, others⟩ := spec.ok_least fd got
    refine ⟨⟨above, below, (same fd).isFree ▸ free, fun fd' from' upto => ?_⟩, rOk, held,
      fun fd' apart => (same fd').trans (others fd' apart)⟩
    rw [← (same fd').isFree]
    exact skipped fd' from' upto
  · obtain ⟨rOk, kept⟩ := spec.failed e failed
    exact ⟨rOk, fun fd => (same fd).trans (kept fd)⟩
  · rw [← (same fd).isFree]
    exact spec.emfile_none emfile fd above below
  · rw [(same fd).isFree]
    exact nothing fd above below

/-- `fdalloc`'s result on a sound table, over every run of its loop. -/
theorem fdalloc_spec (lim : Nat) (allocOk : Bool) (want : Nat) (fdp : Filedesc φ) :
    FdOk fdp → AllocSpec fdp lim allocOk want (fdalloc lim allocOk want fdp) := by
  fun_induction fdalloc lim allocOk want fdp with
  | case1 fdp last start i found =>
    intro ok
    obtain ⟨above, below, free, skipped⟩ := scanFree_some found
    have inLimit : i < min fdp.nfiles lim := by omega
    -- the fds from `want` up to `i` are below `fd_freefile` or skipped by the scan
    have least : ∀ fd, want ≤ fd → fd < i → fdp.isFree fd = false := fun fd from' upto => by
      by_cases old : fd < fdp.freefile
      · exact ok.below_free fd old
      · exact skipped fd (by omega) upto
    obtain ⟨takeOk, held, others⟩ := ok.take (by omega) above fun fd from' upto => skipped fd from' upto
    refine ⟨fun fd got => ?_, fun e failed => (by cases failed), fun emfile => (by cases emfile),
      fun _ nothing => absurd free (by rw [nothing i (by omega) (by omega)]; simp), fun enomem => (by cases enomem)⟩
    cases got
    exact ⟨⟨by omega, by omega, free, least⟩, takeOk, held, others⟩
  | case2 fdp last start missed full =>
    intro ok
    have nothing : ∀ fd, want ≤ fd → fd < lim → fdp.isFree fd = false := fun fd from' upto => by
      by_cases old : fd < fdp.freefile
      · exact ok.below_free fd old
      · exact scanFree_none missed fd (by omega) (by omega)
    exact ⟨fun fd got => (by cases got), fun _ _ => ⟨ok, fun _ => ⟨rfl, rfl⟩⟩, fun _ => nothing, fun _ _ => rfl,
      fun enomem => (by cases enomem)⟩
  | case3 fdp last start missed room noAlloc =>
    intro ok
    refine ⟨fun fd got => (by cases got), fun _ _ => ⟨ok, fun _ => ⟨rfl, rfl⟩⟩, fun emfile => (by cases emfile),
      fun alloc _ => ?_, fun _ => (by simpa using noAlloc)⟩
    simp [alloc] at noAlloc
  | case4 fdp last start missed room alloc ih =>
    intro ok
    exact (ih (ok.expand (grownSize_gt (by omega)).le)).of_expand ok

end Alloc

section Release

theorem lastInUse_le (fdp : Filedesc φ) : ∀ n, fdp.lastInUse n ≤ n
  | 0 => Nat.le_refl 0
  | n + 1 => by
    unfold Filedesc.lastInUse
    split
    · have := lastInUse_le fdp n
      omega
    · exact Nat.le_refl _

/-- The loop of `fdrelse` stops at or above every fd in use. -/
theorem le_lastInUse (fdp : Filedesc φ) : ∀ n fd, fd ≤ n → fdp.isFree fd = false → fd ≤ fdp.lastInUse n
  | 0, fd, below, _ => by omega
  | n + 1, fd, below, used => by
    unfold Filedesc.lastInUse
    split
    · rename_i free
      have apart : fd ≠ n + 1 := fun same => by rw [same, free] at used; cases used
      exact le_lastInUse fdp n fd (by omega) used
    · exact below

theorem FdOk.lowerFree {fdp : Filedesc φ} (ok : FdOk fdp) {n : Nat} (le : n ≤ fdp.freefile) :
    FdOk { fdp with freefile := n } :=
  ⟨ok.ofiles_length, ok.flags_length, fun fd below => ok.below_free fd (Nat.lt_of_lt_of_le below le),
    ok.le_last, ok.last_lt⟩

/-- Clearing a slot at or above `fd_freefile` keeps the table sound. -/
theorem FdOk.clearfd {fdp : Filedesc φ} (ok : FdOk fdp) {fd : Nat} (inside : fd < fdp.nfiles)
    (above : fdp.freefile ≤ fd) : FdOk (fdp.clearfd fd) := by
  have cleared : (fdp.clearfd fd).isFree fd = true := by
    unfold Filedesc.isFree Filedesc.clearfd
    rw [getD_set_self _ _ _ (by rw [ok.ofiles_length]; exact inside),
      getD_set_self _ _ _ (by rw [ok.flags_length]; exact inside)]
    rfl
  have others : ∀ fd' ≠ fd, SameSlot fdp (fdp.clearfd fd) fd' := fun fd' apart =>
    ⟨getD_set_of_ne _ _ _ (Ne.symm apart), getD_set_of_ne _ _ _ (Ne.symm apart)⟩
  refine ⟨by simp [Filedesc.clearfd, ok.ofiles_length], by simp [Filedesc.clearfd, ok.flags_length],
    fun fd' below => ?_, fun fd' used => ?_, ok.last_lt⟩
  · have apart : fd' ≠ fd := by
      show fd' ≠ fd
      have : fd' < fdp.freefile := below
      omega
    rw [(others fd' apart).isFree]
    exact ok.below_free fd' below
  · have apart : fd' ≠ fd := fun same => by rw [same, cleared] at used; cases used
    exact ok.le_last fd' ((others fd' apart).isFree ▸ used)

/-- The loop of `fdrelse` keeps `fd_lastfile` at or above every fd in use. -/
theorem FdOk.lowerLast {fdp : Filedesc φ} (ok : FdOk fdp) :
    FdOk (if fdp.lastfile > 0 then { fdp with lastfile := fdp.lastInUse fdp.lastfile.toNat } else fdp) := by
  split
  · rename_i positive
    refine ⟨ok.ofiles_length, ok.flags_length, ok.below_free, fun fd used => ?_, ?_⟩
    · have below := ok.le_last fd used
      have := le_lastInUse fdp fdp.lastfile.toNat fd (by omega) used
      show (fd : Int) ≤ (fdp.lastInUse fdp.lastfile.toNat : Nat)
      omega
    · have := lastInUse_le fdp fdp.lastfile.toNat
      have := ok.last_lt
      show ((fdp.lastInUse fdp.lastfile.toNat : Nat) : Int) < fdp.nfiles
      omega
  · exact ok

/-- `fdrelse` of a slot of the table keeps it sound. -/
theorem FdOk.fdrelse {fdp : Filedesc φ} (ok : FdOk fdp) {fd : Nat} (inside : fd < fdp.nfiles) :
    FdOk (fdp.fdrelse fd) := by
  -- `fd_freefile` moves down to `fd`, the slot is cleared, then `fd_lastfile` lowered
  have lowered : FdOk (if fd < fdp.freefile then { fdp with freefile := fd } else fdp) := by
    split
    · exact ok.lowerFree (by omega)
    · exact ok
  have above : (if fd < fdp.freefile then { fdp with freefile := fd } else fdp).freefile ≤ fd := by
    split
    · exact Nat.le_refl fd
    · omega
  exact (lowered.clearfd (by split <;> exact inside) above).lowerLast

/-- `procfdtbl_releasefd` of a reserved slot that then holds a file leaves
every slot in use or free as it was. -/
theorem releasefd_isFree {fdp : Filedesc φ} {fd : Nat} {fp : Option φ} (held : fdp.reserved fd)
    (filled : fp.isSome ∨ (fdp.ofiles.getD fd none).isSome) (inside : fd < fdp.ofiles.length) (fd' : Nat) :
    (fdp.releasefd fd fp).isFree fd' = fdp.isFree fd' := by
  have files : (fdp.releasefd fd fp).ofiles = if fp.isSome then fdp.ofiles.set fd fp else fdp.ofiles := rfl
  have flagsAt : ∃ b, (fdp.releasefd fd fp).ofileflags = fdp.ofileflags.set fd b := ⟨_, rfl⟩
  obtain ⟨b, flags⟩ := flagsAt
  by_cases same : fd' = fd
  · -- the slot holds a file after, and was reserved before
    subst same
    rw [isFree_of_reserved held]
    unfold Filedesc.isFree
    rw [files]
    split
    · rename_i some
      rw [getD_set_self _ _ _ inside]
      simp [Option.isSome_iff_ne_none.mp some]
    · rename_i noFile
      have stored := filled.resolve_left noFile
      rw [Bool.and_eq_false_iff]
      exact Or.inl (by simpa using stored)
  · refine (show SameSlot fdp (fdp.releasefd fd fp) fd' from ⟨?_, ?_⟩).isFree
    · rw [files]
      split
      · exact getD_set_of_ne _ _ _ (Ne.symm same)
      · rfl
    · rw [flags]
      exact getD_set_of_ne _ _ _ (Ne.symm same)

/-- `procfdtbl_releasefd` of a reserved slot that then holds a file keeps the
table sound. -/
theorem FdOk.releasefd {fdp : Filedesc φ} (ok : FdOk fdp) {fd : Nat} {fp : Option φ} (held : fdp.reserved fd)
    (filled : fp.isSome ∨ (fdp.ofiles.getD fd none).isSome) : FdOk (fdp.releasefd fd fp) := by
  have inside := ok.lt_nfiles (isFree_of_reserved held)
  have files : (fdp.releasefd fd fp).ofiles = if fp.isSome then fdp.ofiles.set fd fp else fdp.ofiles := rfl
  have flags : (fdp.releasefd fd fp).ofileflags.length = fdp.ofileflags.length := List.length_set ..
  exact ok.of_isFree_eq (releasefd_isFree held filled (by rw [ok.ofiles_length]; exact inside))
    (by rw [files]; split <;> simp) flags rfl rfl rfl

/-- Storing the new file in a reserved slot, as `falloc_withalloc` does, keeps
the table sound. -/
theorem FdOk.install {fdp : Filedesc φ} (ok : FdOk fdp) {fd : Nat} (fp : φ) (held : fdp.reserved fd) :
    FdOk (fdp.install fd fp) := by
  have inside := ok.lt_nfiles (isFree_of_reserved held)
  refine ok.of_isFree_eq (fun fd' => ?_) (List.length_set ..) rfl rfl rfl rfl
  by_cases same : fd' = fd
  · subst same
    rw [isFree_of_reserved held]
    unfold Filedesc.isFree Filedesc.install
    rw [getD_set_self _ _ _ (by rw [ok.ofiles_length]; exact inside)]
    rfl
  · exact (show SameSlot fdp (fdp.install fd fp) fd' from
      ⟨getD_set_of_ne _ _ _ (Ne.symm same), rfl⟩).isFree

end Release

/-- The tables reached from `start` by `fdalloc`, by storing a new file in a
reserved slot, by `procfdtbl_releasefd` of a reserved slot that then holds a
file, and by `fdrelse` of a slot of the table, in any order. -/
inductive FdReach (start : Filedesc φ) : Filedesc φ → Prop
  | start : FdReach start start
  | alloc {fdp : Filedesc φ} (lim : Nat) (allocOk : Bool) (want : Nat) :
      FdReach start fdp → FdReach start (fdalloc lim allocOk want fdp).1
  | install {fdp : Filedesc φ} {fd : Nat} (fp : φ) :
      FdReach start fdp → fdp.reserved fd → FdReach start (fdp.install fd fp)
  | release {fdp : Filedesc φ} {fd : Nat} {fp : Option φ} :
      FdReach start fdp → fdp.reserved fd → (fp.isSome ∨ (fdp.ofiles.getD fd none).isSome) →
        FdReach start (fdp.releasefd fd fp)
  | relse {fdp : Filedesc φ} {fd : Nat} :
      FdReach start fdp → fd < fdp.nfiles → FdReach start (fdp.fdrelse fd)

theorem FdReach.fdOk {start fdp : Filedesc φ} (ok : FdOk start) (reach : FdReach start fdp) : FdOk fdp := by
  induction reach with
  | start => exact ok
  | alloc lim allocOk want _ ih =>
    -- `fdalloc` leaves a sound table whether it succeeds or fails
    have spec := fdalloc_spec lim allocOk want _ ih
    cases result : (fdalloc lim allocOk want _).2 with
    | ok fd => exact (spec.ok_least fd result).2.1
    | error e => exact (spec.failed e result).1
  | install fp _ held ih => exact ih.install fp held
  | release _ held filled ih => exact ih.releasefd held filled
  | relse _ inside ih => exact ih.fdrelse inside

/-- Over every run from a sound table, the table stays sound and `fdalloc`
returns the least fd at or past `want`, below the limit, that is not in use,
`EMFILE` only when there is none (and always then when memory can be had),
and `ENOMEM` only when `MALLOC` fails. -/
theorem fdalloc_least {start fdp : Filedesc φ} (ok : FdOk start) (reach : FdReach start fdp) :
    FdOk fdp ∧ ∀ lim allocOk want, AllocSpec fdp lim allocOk want (fdalloc lim allocOk want fdp) :=
  ⟨reach.fdOk ok, fun lim allocOk want => fdalloc_spec lim allocOk want fdp (reach.fdOk ok)⟩

/-- The empty table of a new process. -/
def emptyFiledesc : Filedesc φ := ⟨[], [], 0, -1, 0⟩

theorem emptyFiledesc_ok : FdOk (emptyFiledesc : Filedesc φ) :=
  ⟨rfl, rfl, fun _ below => absurd below (Nat.not_lt_zero _),
    fun _ used => absurd used (by rw [isFree_of_length_le (Nat.zero_le _) (Nat.zero_le _)]; simp),
    show (-1 : Int) < 0 by decide⟩

theorem fdalloc_least_after_alloc :
    FdOk (emptyFiledesc : Filedesc Nat) ∧
      (FdOk (fdalloc 10 true 0 (emptyFiledesc : Filedesc Nat)).1 ∧
        ∀ lim allocOk want, AllocSpec (fdalloc 10 true 0 emptyFiledesc).1 lim allocOk want
          (fdalloc lim allocOk want (fdalloc 10 true 0 (emptyFiledesc : Filedesc Nat)).1)) :=
  ⟨emptyFiledesc_ok, fdalloc_least emptyFiledesc_ok (.alloc 10 true 0 .start)⟩

/-- Two fds taken, then the first released with `fp == NULL` while its slot is
still empty: fd 0 is free below `fd_freefile`, and `fdalloc` from 0 misses it
and returns `EMFILE`. And `fdalloc` returns `ENOMEM`, not `EMFILE`, when the
`MALLOC` of a larger table fails. -/
theorem fdalloc_after_null_release :
    let t : Filedesc Nat := ((fdalloc 2 true 0 (fdalloc 2 true 0 ⟨[none, none], [0, 0], 2, -1, 0⟩).1).1).releasefd 0 none
    ¬FdOk t ∧ t.isFree 0 = true ∧ (fdalloc 2 true 0 t).2 = .error .emfile ∧
      (fdalloc 10 false 0 (emptyFiledesc : Filedesc Nat)).2 = .error .enomem := by
  intro t
  have free : t.isFree 0 = true := by decide +kernel
  refine ⟨fun ok => ?_, free, by decide +kernel, by decide +kernel⟩
  have used := ok.below_free 0 (by decide +kernel)
  rw [free] at used
  cases used

end Xnu.Fd
