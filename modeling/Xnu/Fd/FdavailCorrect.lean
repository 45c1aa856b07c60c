import Xnu.Fd.FdallocCorrect

namespace Xnu.Fd

/-! `fdavail(p, n)` against the `fdalloc` calls of `unp_externalize`. While
the limit is at least `fd_nfiles`, both come down to the number of fds below
the limit that are not in use, so the loop never panics; below `fd_nfiles`,
`fdavail` also counts the free slots past the limit, which `fdalloc` never
hands out. -/

open Filedesc

variable {φ : Type}

/-- How many of the `k` fds from `fd` are not in use. -/
def countFree (fdp : Filedesc φ) (fd : Nat) : Nat → Nat
  | 0 => 0
  | k + 1 => (if fdp.isFree fd then 1 else 0) + countFree fdp (fd + 1) k

section Count

theorem countFree_add (fdp : Filedesc φ) :
    ∀ fd k l, countFree fdp fd (k + l) = countFree fdp fd k + countFree fdp (fd + k) l
  | fd, 0, l => by simp [countFree]
  | fd, k + 1, l => by
    rw [Nat.add_right_comm]
    simp only [countFree]
    rw [countFree_add fdp (fd + 1) k l, show fd + 1 + k = fd + (k + 1) by omega]
    omega

theorem countFree_eq_zero {fdp : Filedesc φ} :
    ∀ {fd k : Nat}, (∀ i, fd ≤ i → i < fd + k → fdp.isFree i = false) → countFree fdp fd k = 0
  | _, 0, _ => rfl
  | fd, k + 1, used => by
    have here := used fd (Nat.le_refl fd) (by omega)
    have rest : countFree fdp (fd + 1) k = 0 := countFree_eq_zero fun i above below => used i (by omega) (by omega)
    simp only [countFree]
    rw [if_neg (by simp [here]), rest]

theorem countFree_past {fdp : Filedesc φ} :
    ∀ {fd k : Nat}, fdp.ofiles.length ≤ fd → fdp.ofileflags.length ≤ fd → countFree fdp fd k = k
  | _, 0, _, _ => rfl
  | fd, k + 1, files, flags => by
    simp only [countFree]
    rw [if_pos (isFree_of_length_le files flags), countFree_past (by omega) (by omega)]
    omega

theorem countFree_congr {fdp fdp' : Filedesc φ} :
    ∀ {fd k : Nat}, (∀ i, fd ≤ i → i < fd + k → fdp'.isFree i = fdp.isFree i) →
      countFree fdp' fd k = countFree fdp fd k
  | _, 0, _ => rfl
  | fd, k + 1, same => by
    simp only [countFree]
    rw [same fd (Nat.le_refl fd) (by omega), countFree_congr fun i above below => same i (by omega) (by omega)]

/-- Taking one free fd of a range leaves one free fd fewer there. -/
theorem countFree_take {fdp fdp' : Filedesc φ} {f : Nat} (same : ∀ i ≠ f, fdp'.isFree i = fdp.isFree i)
    (was : fdp.isFree f = true) (now : fdp'.isFree f = false) :
    ∀ {fd k : Nat}, fd ≤ f → f < fd + k → countFree fdp' fd k + 1 = countFree fdp fd k
  | _, 0, _, below => absurd below (by omega)
  | fd, k + 1, above, below => by
    simp only [countFree]
    by_cases here : fd = f
    · subst here
      rw [was, now, countFree_congr fun i above' _ => same i (by omega)]
      simp only [Bool.false_eq_true, if_false, if_true]
      omega
    · have rest := countFree_take same was now (show fd + 1 ≤ f by omega) (show f < fd + 1 + k by omega)
      rw [same fd here]
      omega

/-- The loop of `fdavail` says yes once it has seen `n` free fds, and at the
first one when `n` is already at most 1. -/
theorem availLoop_iff (fdp : Filedesc φ) :
    ∀ (n : Int) (fd k : Nat), availLoop fdp n fd k = true ↔ max n 1 ≤ (countFree fdp fd k : Int)
  | n, fd, 0 => by
    simp only [availLoop, countFree, Bool.false_eq_true, false_iff]
    omega
  | n, fd, k + 1 => by
    unfold availLoop
    simp only [countFree]
    by_cases free : fdp.isFree fd = true
    · rw [if_pos free, if_pos free]
      by_cases last : n - 1 ≤ 0
      · rw [if_pos last]
        simp only [true_iff]
        omega
      · rw [if_neg last, availLoop_iff fdp (n - 1) (fd + 1) k]
        omega
    · rw [if_neg free, if_neg free, availLoop_iff fdp n (fd + 1) k]
      omega

end Count

section Avail

variable {fdp : Filedesc φ} {lim : Nat}

theorem FdOk.freefile_le (ok : FdOk fdp) : fdp.freefile ≤ fdp.nfiles := by
  by_contra past
  have := ok.lt_nfiles (ok.below_free fdp.nfiles (by omega))
  omega

/-- Below a limit at least `fd_nfiles`, the fds not in use are the free slots
from `fd_freefile` and every fd past the table. -/
theorem FdOk.countFree_eq (ok : FdOk fdp) (room : fdp.nfiles ≤ lim) :
    countFree fdp 0 lim = countFree fdp fdp.freefile (fdp.nfiles - fdp.freefile) + (lim - fdp.nfiles) := by
  have ordered := ok.freefile_le
  calc countFree fdp 0 lim
      = countFree fdp 0 (fdp.freefile + (fdp.nfiles - fdp.freefile) + (lim - fdp.nfiles)) := by
        congr 1
        omega
    _ = countFree fdp 0 fdp.freefile + countFree fdp fdp.freefile (fdp.nfiles - fdp.freefile) +
          countFree fdp fdp.nfiles (lim - fdp.nfiles) := by
        rw [countFree_add, countFree_add, show fdp.freefile + (fdp.nfiles - fdp.freefile) = fdp.nfiles by omega]
        simp only [Nat.zero_add]
    _ = countFree fdp fdp.freefile (fdp.nfiles - fdp.freefile) + (lim - fdp.nfiles) := by
        have used : countFree fdp 0 fdp.freefile = 0 := countFree_eq_zero fun i _ below => ok.below_free i (by omega)
        have past : countFree fdp fdp.nfiles (lim - fdp.nfiles) = lim - fdp.nfiles :=
          countFree_past ok.ofiles_length.le ok.flags_length.le
        rw [used, past, Nat.zero_add]

/-- While the limit is at least `fd_nfiles`, `fdavail(p, n)` for `n ≥ 1` says
yes exactly when `n` fds below the limit are free. -/
theorem FdOk.fdavail_iff (ok : FdOk fdp) (room : fdp.nfiles ≤ lim) {n : Int} (pos : 1 ≤ n) :
    fdavail lim fdp n = true ↔ n ≤ (countFree fdp 0 lim : Int) := by
  have count := ok.countFree_eq room
  unfold fdavail
  dsimp only
  split
  · rename_i fits
    simp only [true_iff]
    omega
  · rw [availLoop_iff]
    split <;> omega

/-- With memory to grow the table, a successful `fdalloc(p, 0, &f)` takes one
free fd below the limit. -/
theorem fdalloc_ok_countFree (ok : FdOk fdp) {f : Nat} (got : (fdalloc lim true 0 fdp).2 = .ok f) :
    countFree (fdalloc lim true 0 fdp).1 0 lim + 1 = countFree fdp 0 lim := by
  obtain ⟨⟨_, below, free, _⟩, _, held, others⟩ := (fdalloc_spec lim true 0 fdp ok).ok_least f got
  exact countFree_take (fun i apart => (others i apart).isFree) free (isFree_of_reserved held) (Nat.zero_le f)
    (by omega)

/-- With memory to grow the table, `fdalloc(p, 0, &f)` fails only when no fd
below the limit is free. -/
theorem fdalloc_error_countFree (ok : FdOk fdp) {e : FdError} (failed : (fdalloc lim true 0 fdp).2 = .error e) :
    countFree fdp 0 lim = 0 := by
  have spec := fdalloc_spec lim true 0 fdp ok
  cases e with
  | emfile => exact countFree_eq_zero fun i _ below => spec.emfile_none failed i (Nat.zero_le i) (by omega)
  | enomem => cases spec.enomem failed

end Avail

section Externalize

variable {lim : Nat}

@[simp] theorem Except.isOk_map {ε α β : Type} (e : Except ε α) (g : α → β) : (e.map g).isOk = e.isOk := by
  cases e <;> rfl

theorem externalizeLoop_of_error {allocOk : Bool} {fdp : Filedesc φ} {fp : φ} {rest : List φ} {e : FdError}
    (failed : (fdalloc lim allocOk 0 fdp).2 = .error e) :
    externalizeLoop lim allocOk (fp :: rest) fdp = .error .fdallocPanic := by
  unfold externalizeLoop
  rcases result : fdalloc lim allocOk 0 fdp with ⟨t, e' | f⟩
  · rfl
  · rw [result] at failed
    cases failed

/-- With memory to grow the table, the loop of `unp_externalize` stores every
file, over every run of it, exactly when that many fds below the limit are
free: each `fdalloc` takes one, and `procfdtbl_releasefd` keeps it in use. -/
theorem externalizeLoop_isOk_iff :
    ∀ (fps : List φ) (fdp : Filedesc φ), FdOk fdp →
      ((externalizeLoop lim true fps fdp).isOk = true ↔ fps.length ≤ countFree fdp 0 lim)
  | [], fdp, _ => by simp [externalizeLoop, Except.isOk, Except.toBool]
  | fp :: rest, fdp, ok => by
    have spec := fdalloc_spec lim true 0 fdp ok
    have took := @fdalloc_ok_countFree φ fdp lim ok
    have none := @fdalloc_error_countFree φ fdp lim ok
    unfold externalizeLoop
    rcases result : fdalloc lim true 0 fdp with ⟨t, e | f⟩
    · rw [result] at none
      simp [Except.isOk, Except.toBool, none rfl]
    · rw [result] at spec took
      obtain ⟨_, tOk, held, _⟩ := spec.ok_least f rfl
      have inside : f < t.ofiles.length := by
        rw [tOk.ofiles_length]
        exact tOk.lt_nfiles (isFree_of_reserved held)
      -- the fd stays in use once its fileproc is stored
      have stored : (some fp).isSome = true := rfl
      have kept : countFree (t.releasefd f (some fp)) 0 lim = countFree t 0 lim :=
        countFree_congr fun i _ _ => releasefd_isFree held (Or.inl stored) inside i
      have ih := externalizeLoop_isOk_iff rest (t.releasefd f (some fp)) (tOk.releasefd held (Or.inl stored))
      have taken : countFree t 0 lim + 1 = countFree fdp 0 lim := took rfl
      dsimp only
      rw [Except.isOk_map, ih, kept, List.length_cons]
      omega

/-- While the limit is at least `fd_nfiles` and the table can grow,
`fdavail(p, newfds)` says yes exactly when the `fdalloc` calls of
`unp_externalize` all succeed. -/
theorem fdavail_agrees {fdp : Filedesc φ} (ok : FdOk fdp) (room : fdp.nfiles ≤ lim) (fps : List φ)
    (nonempty : fps ≠ []) : fdavail lim fdp fps.length = (externalizeLoop lim true fps fdp).isOk := by
  have pos : 1 ≤ fps.length := List.length_pos_iff.mpr nonempty
  rw [Bool.eq_iff_iff, ok.fdavail_iff room (by omega), externalizeLoop_isOk_iff fps fdp ok]
  omega

/-- So `panic("unp_externalize:fdalloc")` is out of reach while the limit is
at least `fd_nfiles`. -/
theorem unpExternalize_no_panic {fdp : Filedesc φ} (ok : FdOk fdp) (room : fdp.nfiles ≤ lim) (fps : List φ) :
    unpExternalize lim true fps fdp ≠ .error .fdallocPanic := by
  unfold unpExternalize
  split
  · rename_i avail
    cases fps with
    | nil => simp [externalizeLoop]
    | cons fp rest =>
      rw [fdavail_agrees ok room (fp :: rest) (List.cons_ne_nil fp rest)] at avail
      intro panics
      rw [panics] at avail
      cases avail
  · simp

/-- A table of four slots with fd 0 in use and fds 1 to 3 free. -/
theorem fdOk_oneOfFour : FdOk (⟨[some 0, none, none, none], [0, 0, 0, 0], 4, 0, 1⟩ : Filedesc Nat) := by
  have used : ∀ fd, (⟨[some 0, none, none, none], [0, 0, 0, 0], 4, 0, 1⟩ : Filedesc Nat).isFree fd = false →
      fd = 0 := fun fd busy => by
    by_cases past : 4 ≤ fd
    · rw [isFree_of_length_le past past] at busy
      cases busy
    · interval_cases fd <;> first | rfl | exact absurd busy (by decide)
  exact ⟨rfl, rfl, fun fd below => by rw [Nat.lt_one_iff.mp below]; rfl, fun fd busy => by rw [used fd busy]; decide,
    by decide⟩

/-- Two files passed to that table under a limit of four: the loop allocates
fds 1 and 2. -/
theorem unpExternalize_no_panic_two :
    unpExternalize 4 true [7, 8] (⟨[some 0, none, none, none], [0, 0, 0, 0], 4, 0, 1⟩ : Filedesc Nat) ≠
      .error .fdallocPanic :=
  unpExternalize_no_panic fdOk_oneOfFour (Nat.le_refl 4) [7, 8]

/-- A table of four slots with fd 0 in use and fds 1 to 3 free, after the
limit was lowered to 1: `fdavail(p, 1)` counts the free slots past the limit
and says yes, `fdalloc` only looks below the limit and returns `EMFILE`, and
`unp_externalize` reaches `panic("unp_externalize:fdalloc")`. -/
theorem unpExternalize_panics_below_nfiles :
    let t : Filedesc Nat := ⟨[some 0, none, none, none], [0, 0, 0, 0], 4, 0, 1⟩
    FdOk t ∧ fdavail 1 t 1 = true ∧ (fdalloc 1 true 0 t).2 = .error .emfile ∧
      unpExternalize 1 true [7] t = .error .fdallocPanic := by
  intro t
  have ok : FdOk t := fdOk_oneOfFour
  have avail : fdavail 1 t 1 = true := by decide +kernel
  have missed : (fdalloc 1 true 0 t).2 = .error .emfile := by decide +kernel
  refine ⟨ok, avail, missed, ?_⟩
  unfold unpExternalize
  rw [if_pos (show fdavail 1 t [7].length = true from avail)]
  exact externalizeLoop_of_error missed

end Externalize

end Xnu.Fd
