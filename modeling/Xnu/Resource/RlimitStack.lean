import Xnu.Resource.Rlimit

namespace Xnu.Resource

/-! The `RLIMIT_STACK` case of `dosetrlimit` with the `mach_vm_protect` calls
it makes. The stack is mapped to its largest size at exec time, with the top
`round_page_64(rlim_cur)` bytes below `p->user_stack` accessible; raising the
soft limit opens the pages between the old and the new limit, and lowering it
should close them. The grow branch does; the shrink branch computes its size
as `round_page_64(rlim.rlim_cur) - round_page_64(rlim.rlim_cur)`, so it
protects nothing and the pages above the new limit stay accessible. -/

/-- `VM_PROT_NONE` and `VM_PROT_DEFAULT`. -/
inductive VmProt where
  | none
  | default
deriving DecidableEq, Repr

/-- `mach_vm_protect(current_map(), addr, size, FALSE, prot)`. -/
structure ProtectCall where
  addr : UInt64
  size : UInt64
  prot : VmProt
deriving DecidableEq, Repr

/-- `round_page_64(x)` with `PAGE_MASK_64` as `pageMask`. -/
def roundPage64 (pageMask x : UInt64) : UInt64 := (x + pageMask) &&& ~~~pageMask

/-- What the case reads of the process and of the calling thread:
`P_LCUSTOM_STACK`, `p->user_stack`, and the stack pointer that
`thread_adjuserstack(current_thread(), 0)` returns. -/
structure StackProc where
  customStack : Bool
  userStack : UInt64
  curSp : UInt64

/-- `case RLIMIT_STACK:` of `dosetrlimit`, with `rlim` the snapshot: the
`mach_vm_protect` calls it makes and the limit it lets `dosetrlimit` write,
or the error. `protect` says which calls return `KERN_SUCCESS`. -/
def dosetrlimitStack (pageMask maxsmap : UInt64) (proc : StackProc) (protect : ProtectCall → Bool) (posix : Bool)
    (newrlim rlim : Rlimit) : List ProtectCall × Except Errno Rlimit :=
  if proc.customStack then ([], .error .einval)
  -- an illegal stack size is refused under POSIX, and clipped otherwise
  else if (newrlim.cur > maxsmap || newrlim.max > maxsmap) && posix then ([], .error .einval)
  else
    let newrlim := clampRlimit maxsmap newrlim
    if newrlim.cur > rlim.cur then
      -- grow stack
      let size := roundPage64 pageMask newrlim.cur - roundPage64 pageMask rlim.cur
      let addr := proc.userStack - roundPage64 pageMask newrlim.cur
      let call : ProtectCall := ⟨addr, size, .default⟩
      ([call], if protect call then .ok newrlim else .error .einval)
    else if newrlim.cur < rlim.cur then
      -- shrink stack, if the stack pointer is in the main stack and stays inside the new limit
      if proc.curSp ≤ proc.userStack && proc.curSp > proc.userStack - roundPage64 pageMask rlim.cur then
        if proc.curSp ≤ proc.userStack - roundPage64 pageMask newrlim.cur then ([], .error .einval)
        else
          let size := roundPage64 pageMask rlim.cur - roundPage64 pageMask rlim.cur
          let addr := proc.userStack - roundPage64 pageMask rlim.cur
          let call : ProtectCall := ⟨addr, size, .none⟩
          ([call], if protect call then .ok newrlim else .error .einval)
      else ([], .error .einval)
    else ([], .ok newrlim)

section Stack

variable {pageMask maxsmap : UInt64} {proc : StackProc} {protect : ProtectCall → Bool} {posix : Bool}
  {newrlim rlim r : Rlimit}

/-- Where the case succeeds it writes the request clipped to `maxsmap`. -/
theorem dosetrlimitStack_ok (wrote : (dosetrlimitStack pageMask maxsmap proc protect posix newrlim rlim).2 = .ok r) :
    r = clampRlimit maxsmap newrlim := by
  unfold dosetrlimitStack at wrote
  dsimp only at wrote
  split_ifs at wrote <;> cases wrote <;> rfl

/-- The calls a successful `RLIMIT_STACK` case makes, by how the clipped soft
limit `c` compares with the snapshot's `o`: raising it opens
`[user_stack - r(c), user_stack - r(o))`, keeping it makes no call, and
lowering it makes one `VM_PROT_NONE` call of size `r(o) - r(o)`. -/
theorem dosetrlimitStack_calls (wrote : (dosetrlimitStack pageMask maxsmap proc protect posix newrlim rlim).2 = .ok r) :
    (rlim.cur < r.cur → (dosetrlimitStack pageMask maxsmap proc protect posix newrlim rlim).1 =
      [⟨proc.userStack - roundPage64 pageMask r.cur,
        roundPage64 pageMask r.cur - roundPage64 pageMask rlim.cur, .default⟩]) ∧
    (r.cur = rlim.cur → (dosetrlimitStack pageMask maxsmap proc protect posix newrlim rlim).1 = []) ∧
    (r.cur < rlim.cur → (dosetrlimitStack pageMask maxsmap proc protect posix newrlim rlim).1 =
      [⟨proc.userStack - roundPage64 pageMask rlim.cur, 0, .none⟩]) := by
  have written := dosetrlimitStack_ok wrote
  subst written
  unfold dosetrlimitStack at wrote ⊢
  dsimp only at wrote ⊢
  -- each branch that succeeds fixes how the clipped soft limit compares with the old one
  split_ifs at wrote ⊢
  all_goals cases wrote
  · rename_i grow _
    refine ⟨fun _ => rfl, fun same => ?_, fun below => ?_⟩
    · rw [same] at grow
      exact absurd grow (UInt64.lt_irrefl _)
    · exact absurd below (UInt64.lt_asymm grow)
  · rename_i shrink _ _ _
    refine ⟨fun above => absurd above (UInt64.lt_asymm shrink), fun same => ?_, fun _ => ?_⟩
    · rw [same] at shrink
      exact absurd shrink (UInt64.lt_irrefl _)
    · simp
  · rename_i notGrow notShrink
    exact ⟨fun above => absurd above notGrow, fun _ => rfl, fun below => absurd below notShrink⟩

/-- The grow call opens exactly the pages between the old and the new limit:
it starts at `user_stack - r(c)` and ends at `user_stack - r(o)`. -/
theorem dosetrlimitStack_grow_range
    (wrote : (dosetrlimitStack pageMask maxsmap proc protect posix newrlim rlim).2 = .ok r) (grow : rlim.cur < r.cur) :
    ∃ call, (dosetrlimitStack pageMask maxsmap proc protect posix newrlim rlim).1 = [call] ∧
      call.prot = .default ∧ call.addr = proc.userStack - roundPage64 pageMask r.cur ∧
      call.addr + call.size = proc.userStack - roundPage64 pageMask rlim.cur := by
  refine ⟨_, (dosetrlimitStack_calls wrote).1 grow, rfl, rfl, ?_⟩
  dsimp only
  rw [sub_add_sub_cancel]

/-- Every successful call that lowers the stack limit makes a single
`mach_vm_protect` call, and that call has size 0: no page above the new limit
becomes inaccessible, whatever the old and new limits. -/
theorem dosetrlimitStack_shrink_protects_nothing
    (wrote : (dosetrlimitStack pageMask maxsmap proc protect posix newrlim rlim).2 = .ok r) (shrink : r.cur < rlim.cur) :
    (dosetrlimitStack pageMask maxsmap proc protect posix newrlim rlim).1 =
      [⟨proc.userStack - roundPage64 pageMask rlim.cur, 0, .none⟩] :=
  (dosetrlimitStack_calls wrote).2.2 shrink

/-- The case refines the switch of `Xnu.Resource.Rlimit`, whose `stackOk`
stands for the stack pointer check and the `mach_vm_protect` call. -/
theorem dosetrlimitStack_refines_switch (cfg : Tunables) (root : Bool) {p : Pending} (stack : p.which = rlimitStack) :
    ∃ env : StackEnv, env.customStack = proc.customStack ∧
      dosetrlimitSwitch cfg root env p = (dosetrlimitStack pageMask cfg.maxsmap proc protect p.posix p.newrlim p.rlim).2 := by
  refine ⟨⟨proc.customStack, (dosetrlimitStack pageMask cfg.maxsmap proc protect p.posix p.newrlim p.rlim).2.toBool⟩,
    rfl, ?_⟩
  have notData : p.which ≠ rlimitData := by
    rw [stack]
    decide
  unfold dosetrlimitSwitch
  rw [if_neg notData, if_pos stack]
  unfold dosetrlimitStack
  dsimp only
  split_ifs <;> simp_all [Except.toBool]

end Stack

/-- Lowering the soft stack limit from 8 MiB to 4 MiB on 4 KiB pages succeeds
and makes one call of size 0, though the pages from `user_stack - 8 MiB` to
`user_stack - 4 MiB` are no longer within the limit. -/
theorem dosetrlimitStack_shrink_protects_nothing_half :
    let proc : StackProc := ⟨false, 0x7ff000000000, 0x7ff000000000 - 0x1000⟩
    let run := dosetrlimitStack 0xfff 0x40000000 proc (fun _ => true) true ⟨0x400000, 0x40000000⟩ ⟨0x800000, 0x40000000⟩
    run.2 = .ok ⟨0x400000, 0x40000000⟩ ∧
      roundPage64 0xfff 0x400000 < roundPage64 0xfff 0x800000 ∧
      run.1 = [⟨proc.userStack - roundPage64 0xfff 0x800000, 0, .none⟩] := by
  intro proc run
  have wrote : run.2 = .ok ⟨0x400000, 0x40000000⟩ := by decide
  exact ⟨wrote, by decide, dosetrlimitStack_shrink_protects_nothing wrote (by decide)⟩

end Xnu.Resource
