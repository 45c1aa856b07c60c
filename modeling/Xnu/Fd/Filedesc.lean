import Mathlib

namespace Xnu.Fd

/-! The file descriptor table of `bsd/kern/kern_descrip.c`: `fdalloc`,
`fdavail`, `fdrelse` and the `procfdtbl_*` helpers, with the fd lock held
throughout. `fd_ofiles` holds a file or `NULL` per descriptor and
`fd_ofileflags` the flag byte; the file itself is a type variable. The limit
`lim` stands for `MIN(RLIMIT_NOFILE, maxfilesperproc)` at the call, and
`allocOk` for whether the `MALLOC` of a larger table returns memory. The
`UF_RESVWAIT` wakeups change no field the table's functions read and are left
out. The descriptor loop of `unp_externalize` (`bsd/kern/uipc_usrreq.c`) runs
on the table the same way. -/

/-- `UF_RESERVED`. -/
def ufReserved : UInt8 := 0x04

/-- `UF_RESVWAIT`. -/
def ufResvwait : UInt8 := 0x10

/-- `NDEXTENT`. -/
def ndextent : Nat := 50

/-- The fields of `struct filedesc` that the allocator reads and writes. -/
structure Filedesc (φ : Type) where
  ofiles : List (Option φ)
  ofileflags : List UInt8
  nfiles : Nat
  lastfile : Int
  freefile : Nat

/-- The errors `fdalloc` returns. -/
inductive FdError where
  | emfile
  | enomem
deriving DecidableEq, Repr

variable {φ : Type}

namespace Filedesc

/-- `fd_ofiles[fd] == NULL && !(fd_ofileflags[fd] & UF_RESERVED)`. -/
def isFree (fdp : Filedesc φ) (fd : Nat) : Bool :=
  (fdp.ofiles.getD fd none).isNone && (fdp.ofileflags.getD fd 0 &&& ufReserved) == 0

/-- `procfdtbl_reservefd(p, fd)`. -/
def reservefd (fdp : Filedesc φ) (fd : Nat) : Filedesc φ :=
  { fdp with
    ofiles := fdp.ofiles.set fd none
    ofileflags := fdp.ofileflags.set fd (fdp.ofileflags.getD fd 0 ||| ufReserved) }

/-- `procfdtbl_releasefd(p, fd, fp)`: the file stored unless `fp` is `NULL`,
and `UF_RESERVED` and `UF_RESVWAIT` cleared. -/
def releasefd (fdp : Filedesc φ) (fd : Nat) (fp : Option φ) : Filedesc φ :=
  let ofiles := if fp.isSome then fdp.ofiles.set fd fp else fdp.ofiles
  let flags := fdp.ofileflags.getD fd 0 &&& ~~~ufReserved
  let flags := if flags &&& ufResvwait = ufResvwait then flags &&& ~~~ufResvwait else flags
  { fdp with ofiles := ofiles, ofileflags := fdp.ofileflags.set fd flags }

/-- `p->p_fd->fd_ofiles[nfd] = fp` in `falloc_withalloc`: the new file stored
in the slot `fdalloc` reserved. -/
def install (fdp : Filedesc φ) (fd : Nat) (fp : φ) : Filedesc φ :=
  { fdp with ofiles := fdp.ofiles.set fd (some fp) }

/-- `procfdtbl_clearfd(p, fd)`. -/
def clearfd (fdp : Filedesc φ) (fd : Nat) : Filedesc φ :=
  { fdp with ofiles := fdp.ofiles.set fd none, ofileflags := fdp.ofileflags.set fd 0 }

/-- The loop of `fdrelse` that lowers `fd_lastfile` past free slots, never
below 0. -/
def lastInUse (fdp : Filedesc φ) : Nat → Nat
  | 0 => 0
  | n + 1 => if fdp.isFree (n + 1) then lastInUse fdp n else n + 1

/-- `fdrelse(p, fd)`. -/
def fdrelse (fdp : Filedesc φ) (fd : Nat) : Filedesc φ :=
  let fdp := if fd < fdp.freefile then { fdp with freefile := fd } else fdp
  let fdp := fdp.clearfd fd
  if fdp.lastfile > 0 then { fdp with lastfile := fdp.lastInUse fdp.lastfile.toNat } else fdp

/-- The `for (; i < last; i++)` scan of `fdalloc`: the first free fd among the
`k` from `i`. -/
def scanFree (fdp : Filedesc φ) (i : Nat) : Nat → Option Nat
  | 0 => none
  | k + 1 => if fdp.isFree i then some i else scanFree fdp (i + 1) k

/-- The arrays copied into ones of `numfiles` entries, the new entries
zeroed. -/
def expand (fdp : Filedesc φ) (numfiles : Nat) : Filedesc φ :=
  { fdp with
    ofiles := fdp.ofiles.take fdp.nfiles ++ List.replicate (numfiles - fdp.nfiles) none
    ofileflags := fdp.ofileflags.take fdp.nfiles ++ List.replicate (numfiles - fdp.nfiles) 0
    nfiles := numfiles }

/-- The size `fdalloc` grows a table to: `NDEXTENT`, or twice the old size,
but not past the limit. -/
def grownSize (nfiles lim : Nat) : Nat :=
  min (if nfiles < ndextent then ndextent else 2 * nfiles) lim

/-- What `fdalloc` does once the scan found `i`: reserve it, raise
`fd_lastfile` to it, and move `fd_freefile` to it unless `want` was past
`fd_freefile`. -/
def take (fdp : Filedesc φ) (want i : Nat) : Filedesc φ :=
  let fdp := fdp.reservefd i
  let fdp := if (i : Int) > fdp.lastfile then { fdp with lastfile := i } else fdp
  if want ≤ fdp.freefile then { fdp with freefile := i } else fdp

end Filedesc

open Filedesc

theorem grownSize_gt {nfiles lim : Nat} (room : nfiles < lim) : nfiles < grownSize nfiles lim := by
  unfold grownSize ndextent
  split <;> omega

/-- `fdalloc(p, want, &fd)`: the table after it, and the fd or the error. The
`for (;;)` loop runs again after each growth of the table, which stops at the
limit. The re-check `fd_nfiles >= numfiles` after `MALLOC` guards against a
table grown while the lock was dropped, which a call holding the lock never
sees, and is left out. -/
def fdalloc (lim : Nat) (allocOk : Bool) (want : Nat) (fdp : Filedesc φ) : Filedesc φ × Except FdError Nat :=
  let last := min fdp.nfiles lim
  let start := max want fdp.freefile
  match fdp.scanFree start (last - start) with
  | some i => (fdp.take want i, .ok i)
  | none =>
    if lim ≤ fdp.nfiles then (fdp, .error .emfile)
    else if !allocOk then (fdp, .error .enomem)
    else fdalloc lim allocOk want (fdp.expand (grownSize fdp.nfiles lim))
termination_by lim - fdp.nfiles
decreasing_by
  have grows := grownSize_gt (Nat.lt_of_not_le ‹¬lim ≤ fdp.nfiles›)
  have bounded : grownSize fdp.nfiles lim ≤ lim := min_le_right _ _
  show lim - grownSize fdp.nfiles lim < lim - fdp.nfiles
  omega

/-- The loop of `fdavail` over the slots from `fd_freefile`: `n` drops at each
free one, and the answer is yes once it reaches 0. -/
def availLoop (fdp : Filedesc φ) (n : Int) (fd : Nat) : Nat → Bool
  | 0 => false
  | k + 1 =>
    if fdp.isFree fd then (if n - 1 ≤ 0 then true else availLoop fdp (n - 1) (fd + 1) k)
    else availLoop fdp n (fd + 1) k

/-- `fdavail(p, n)`: whether `n` descriptors are available. The room the
table may still grow by counts first, then the free slots from
`fd_freefile`. -/
def fdavail (lim : Nat) (fdp : Filedesc φ) (n : Int) : Bool :=
  let i := (lim : Int) - fdp.nfiles
  if i > 0 ∧ n - i ≤ 0 then true
  else availLoop fdp (if i > 0 then n - i else n) fdp.freefile (fdp.nfiles - fdp.freefile)

/-- How the descriptor part of `unp_externalize` fails. -/
inductive ExternalizeError where
  /-- `fdavail` said no: `EMSGSIZE`. -/
  | emsgsize
  /-- `panic("unp_externalize:fdalloc")`. -/
  | fdallocPanic
deriving DecidableEq, Repr

/-- The `for` loop of `unp_externalize` under the fd lock: for each file an
fd from `fdalloc(p, 0, &f)`, in which `procfdtbl_releasefd(p, f, fp)` stores
its fileproc. The table after, and the fds in order. -/
def externalizeLoop (lim : Nat) (allocOk : Bool) :
    List φ → Filedesc φ → Except ExternalizeError (Filedesc φ × List Nat)
  | [], fdp => .ok (fdp, [])
  | fp :: rest, fdp =>
    match fdalloc lim allocOk 0 fdp with
    | (fdp, .ok f) => (externalizeLoop lim allocOk rest (fdp.releasefd f (some fp))).map fun r => (r.1, f :: r.2)
    | (_, .error _) => .error .fdallocPanic

/-- The table part of `unp_externalize(rights)` for the fileprocs `fps` made
for the files it carries: `EMSGSIZE` unless `fdavail(p, newfds)`, then the
loop. -/
def unpExternalize (lim : Nat) (allocOk : Bool) (fps : List φ) (fdp : Filedesc φ) :
    Except ExternalizeError (Filedesc φ × List Nat) :=
  if fdavail lim fdp fps.length then externalizeLoop lim allocOk fps fdp else .error .emsgsize

end Xnu.Fd
