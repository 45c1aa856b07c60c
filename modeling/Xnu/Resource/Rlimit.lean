import Mathlib

namespace Xnu.Resource

/-! `dosetrlimit` of `bsd/kern/kern_resource.c`, as the threads of one
process run it. A call reads a snapshot of `pl_rlimit[which]` under
`proc_lock` and checks the request against it with no lock held; then, with
`proc_limitblock` held, it runs the switch on the resource and writes the
limit through `proc_limitupdate`. The limit block lets one call at a time do
the second part, which is therefore one step; any number of calls may sit
between the two parts. What the switch does besides the limits (the CPU
timer, the user wire limit) and the copy-on-write of a shared `plimit`, which
changes no value the process reads, are left out. -/

/-- `struct rlimit`. -/
structure Rlimit where
  cur : UInt64
  max : UInt64
deriving DecidableEq, Repr

/-- `RLIMIT_DATA`. -/
def rlimitData : UInt32 := 2

/-- `RLIMIT_STACK`. -/
def rlimitStack : UInt32 := 3

/-- `RLIMIT_NPROC`. -/
def rlimitNproc : UInt32 := 7

/-- `RLIMIT_NOFILE`. -/
def rlimitNofile : UInt32 := 8

/-- `RLIM_NLIMITS`. -/
def rlimNlimits : UInt32 := 9

/-- `_RLIMIT_POSIX_FLAG`. -/
def rlimitPosixFlag : UInt32 := 0x1000

/-- The kernel variables the switch clamps against: `maxdmap`, `maxsmap`,
`maxproc` and `maxprocperuid`, the last two as `rlim_t`. -/
structure Tunables where
  maxdmap : UInt64
  maxsmap : UInt64
  maxproc : UInt64
  maxprocperuid : UInt64

/-- The errors `dosetrlimit` returns. -/
inductive Errno where
  | einval
  | eperm
deriving DecidableEq, Repr

/-- A call past its checks: the resource, whether `_RLIMIT_POSIX_FLAG` was
set, the request, and the snapshot `rlim` it was checked against. -/
structure Pending where
  which : UInt32
  posix : Bool
  newrlim : Rlimit
  rlim : Rlimit
deriving DecidableEq, Repr

/-- `dosetrlimit(p, which, newrlim)` up to `proc_limitblock`: the flag taken
off, the snapshot read, and the checks against it. `root` is whether
`suser()` succeeds for the caller. -/
def dosetrlimitCheck (root : Bool) (limits : Nat → Rlimit) (which : UInt32) (newrlim : Rlimit) :
    Except Errno Pending :=
  let posix := which &&& rlimitPosixFlag ≠ 0
  let which := which &&& ~~~rlimitPosixFlag
  if which ≥ rlimNlimits then .error .einval
  else
    let rlim := limits which.toNat
    -- the new soft limit cannot exceed the new hard limit
    if newrlim.cur > newrlim.max then .error .einval
    -- only the super-user may raise the hard limit
    else if (newrlim.cur > rlim.max || newrlim.max > rlim.max) && !root then .error .eperm
    else .ok ⟨which, posix, newrlim, rlim⟩

/-- What the switch asks of the process and of the VM for `RLIMIT_STACK`:
whether `P_LCUSTOM_STACK` is set, and whether the stack can be grown or shrunk
to the new soft limit (the `mach_vm_protect` calls, and the check that the
stack pointer stays inside the new limit). -/
structure StackEnv where
  customStack : Bool
  stackOk : Bool

/-- Both fields lowered to `bound` where they exceed it. -/
def clampRlimit (bound : UInt64) (r : Rlimit) : Rlimit :=
  ⟨if r.cur > bound then bound else r.cur, if r.max > bound then bound else r.max⟩

/-- The switch of `dosetrlimit` on the resource, with the limit block held:
the limit to write, or the error. `RLIMIT_MEMLOCK` casts the soft limit to
`vm_size_t`, which is 64 bits wide, so it is written as asked. -/
def dosetrlimitSwitch (cfg : Tunables) (root : Bool) (env : StackEnv) (p : Pending) : Except Errno Rlimit :=
  if p.which = rlimitData then .ok (clampRlimit cfg.maxdmap p.newrlim)
  else if p.which = rlimitStack then
    if env.customStack then .error .einval
    -- an illegal stack size is refused under POSIX, and clipped otherwise
    else if (p.newrlim.cur > cfg.maxsmap || p.newrlim.max > cfg.maxsmap) && p.posix then .error .einval
    else
      let newrlim := clampRlimit cfg.maxsmap p.newrlim
      if newrlim.cur ≠ p.rlim.cur && !env.stackOk then .error .einval else .ok newrlim
  else if p.which = rlimitNproc then
    .ok (clampRlimit (if root then cfg.maxproc else cfg.maxprocperuid) p.newrlim)
  else .ok p.newrlim

/-- The limits of the process and the calls in flight. -/
structure Proc where
  limits : Nat → Rlimit
  pending : List Pending

/-- One step of the threads of a process whose caller is `root` or not: a
call takes its snapshot and passes its checks, or a call in flight takes the
limit block and runs the switch, writing its limit through
`proc_limitupdate` when the switch succeeds. A call whose checks fail
changes nothing. -/
inductive Step (cfg : Tunables) (root : Bool) : Proc → Proc → Prop
  | check {s : Proc} {which : UInt32} {newrlim : Rlimit} {p : Pending} :
      dosetrlimitCheck root s.limits which newrlim = .ok p → Step cfg root s { s with pending := p :: s.pending }
  | update {s : Proc} {pre post : List Pending} {p : Pending} {env : StackEnv} {r : Rlimit} :
      s.pending = pre ++ p :: post → dosetrlimitSwitch cfg root env p = .ok r →
        Step cfg root s ⟨Function.update s.limits p.which.toNat r, pre ++ post⟩
  | fail {s : Proc} {pre post : List Pending} {p : Pending} {env : StackEnv} {e : Errno} :
      s.pending = pre ++ p :: post → dosetrlimitSwitch cfg root env p = .error e →
        Step cfg root s { s with pending := pre ++ post }

end Xnu.Resource
