import Xnu.Resource.Rlimit

namespace Xnu.Resource

/-! Over every interleaving of `dosetrlimit` calls, each limit keeps its soft
value at most its hard value, and what a call writes for `RLIMIT_DATA`,
`RLIMIT_STACK` and `RLIMIT_NPROC` lies within `maxdmap`, `maxsmap` and, for a
caller that is not the super-user, `maxprocperuid`. Such a caller never
raises the hard limit of its snapshot; but another call may lower the limit
between the snapshot and the update, and the update then raises it back. -/

section Clamp

theorem clampRlimit_ordered (bound : UInt64) {r : Rlimit} (ordered : r.cur ≤ r.max) :
    (clampRlimit bound r).cur ≤ (clampRlimit bound r).max := by
  simp only [clampRlimit]
  split <;> split <;> simp only [UInt64.le_iff_toNat_le, UInt64.lt_iff_toNat_lt, gt_iff_lt, not_lt] at * <;> omega

theorem clampRlimit_within (bound : UInt64) (r : Rlimit) :
    (clampRlimit bound r).cur ≤ bound ∧ (clampRlimit bound r).max ≤ bound := by
  simp only [clampRlimit]
  constructor <;> split <;> simp only [UInt64.le_iff_toNat_le, UInt64.lt_iff_toNat_lt, gt_iff_lt, not_lt] at * <;> omega

theorem clampRlimit_max_le (bound : UInt64) (r : Rlimit) : (clampRlimit bound r).max ≤ r.max := by
  simp only [clampRlimit]
  split <;> simp only [UInt64.le_iff_toNat_le, UInt64.lt_iff_toNat_lt, gt_iff_lt, not_lt] at * <;> omega

end Clamp

section Call

variable {cfg : Tunables} {root : Bool} {limits : Nat → Rlimit} {which : UInt32} {newrlim r : Rlimit} {p : Pending}
  {env : StackEnv}

/-- A call that passes its checks asks for a soft limit at most its hard
limit, checked against the snapshot of the limit of its resource and, unless
it is the super-user's, for no more than the snapshot's hard limit. -/
theorem dosetrlimitCheck_ok (passed : dosetrlimitCheck root limits which newrlim = .ok p) :
    p.newrlim = newrlim ∧ p.newrlim.cur ≤ p.newrlim.max ∧ p.rlim = limits p.which.toNat ∧
      (root = false → p.newrlim.max ≤ p.rlim.max) := by
  unfold dosetrlimitCheck at passed
  dsimp only at passed
  split at passed
  · cases passed
  split at passed
  · cases passed
  rename_i ordered
  split at passed
  · cases passed
  rename_i allowed
  cases passed
  refine ⟨rfl, UInt64.not_lt.mp ordered, rfl, fun notRoot => ?_⟩
  subst notRoot
  simp only [Bool.not_false, Bool.and_true, Bool.or_eq_true, decide_eq_true_eq, not_or] at allowed
  exact UInt64.not_lt.mp allowed.2

/-- What the switch writes: the request clamped to the bound of its resource
(`maxdmap` for `RLIMIT_DATA`, `maxsmap` for `RLIMIT_STACK`, and `maxproc` or
`maxprocperuid` for `RLIMIT_NPROC`), or as asked for any other. -/
theorem dosetrlimitSwitch_ok (wrote : dosetrlimitSwitch cfg root env p = .ok r) :
    (p.which = rlimitData ∧ r = clampRlimit cfg.maxdmap p.newrlim) ∨
    (p.which = rlimitStack ∧ r = clampRlimit cfg.maxsmap p.newrlim) ∨
    (p.which = rlimitNproc ∧ r = clampRlimit (if root then cfg.maxproc else cfg.maxprocperuid) p.newrlim) ∨
    (p.which ≠ rlimitData ∧ p.which ≠ rlimitStack ∧ p.which ≠ rlimitNproc ∧ r = p.newrlim) := by
  unfold dosetrlimitSwitch at wrote
  split at wrote
  · cases wrote
    exact .inl ⟨‹_›, rfl⟩
  rename_i notData
  split at wrote
  · rename_i stack
    split at wrote
    · cases wrote
    split at wrote
    · cases wrote
    dsimp only at wrote
    split at wrote
    · cases wrote
    · cases wrote
      exact .inr (.inl ⟨stack, rfl⟩)
  rename_i notStack
  split at wrote
  · cases wrote
    exact .inr (.inr (.inl ⟨‹_›, rfl⟩))
  · cases wrote
    exact .inr (.inr (.inr ⟨notData, notStack, ‹_›, rfl⟩))

theorem dosetrlimitSwitch_ordered (wrote : dosetrlimitSwitch cfg root env p = .ok r)
    (ordered : p.newrlim.cur ≤ p.newrlim.max) : r.cur ≤ r.max := by
  rcases dosetrlimitSwitch_ok wrote with ⟨_, rfl⟩ | ⟨_, rfl⟩ | ⟨_, rfl⟩ | ⟨_, _, _, rfl⟩
  · exact clampRlimit_ordered _ ordered
  · exact clampRlimit_ordered _ ordered
  · exact clampRlimit_ordered _ ordered
  · exact ordered

theorem dosetrlimitSwitch_max_le (wrote : dosetrlimitSwitch cfg root env p = .ok r) : r.max ≤ p.newrlim.max := by
  rcases dosetrlimitSwitch_ok wrote with ⟨_, rfl⟩ | ⟨_, rfl⟩ | ⟨_, rfl⟩ | ⟨_, _, _, rfl⟩
  · exact clampRlimit_max_le _ _
  · exact clampRlimit_max_le _ _
  · exact clampRlimit_max_le _ _
  · exact UInt64.le_refl _

/-- What a call writes for `RLIMIT_DATA`, `RLIMIT_STACK` and, unless it is
the super-user's, `RLIMIT_NPROC` lies within `maxdmap`, `maxsmap` and
`maxprocperuid`. -/
theorem dosetrlimitSwitch_within (wrote : dosetrlimitSwitch cfg root env p = .ok r) :
    (p.which = rlimitData → r.cur ≤ cfg.maxdmap ∧ r.max ≤ cfg.maxdmap) ∧
    (p.which = rlimitStack → r.cur ≤ cfg.maxsmap ∧ r.max ≤ cfg.maxsmap) ∧
    (p.which = rlimitNproc → root = false → r.cur ≤ cfg.maxprocperuid ∧ r.max ≤ cfg.maxprocperuid) := by
  rcases dosetrlimitSwitch_ok wrote with ⟨data, rfl⟩ | ⟨stack, rfl⟩ | ⟨nproc, rfl⟩ | ⟨notData, notStack, notNproc, rfl⟩
  · refine ⟨fun _ => clampRlimit_within _ _, fun stack => ?_, fun nproc => ?_⟩
    · exact absurd (data.symm.trans stack) (by decide)
    · exact absurd (data.symm.trans nproc) (by decide)
  · refine ⟨fun data => ?_, fun _ => clampRlimit_within _ _, fun nproc => ?_⟩
    · exact absurd (stack.symm.trans data) (by decide)
    · exact absurd (stack.symm.trans nproc) (by decide)
  · refine ⟨fun data => ?_, fun stack => ?_, fun _ notRoot => ?_⟩
    · exact absurd (nproc.symm.trans data) (by decide)
    · exact absurd (nproc.symm.trans stack) (by decide)
    · subst notRoot
      exact clampRlimit_within _ _
  · exact ⟨fun data => absurd data notData, fun stack => absurd stack notStack, fun nproc => absurd nproc notNproc⟩

/-- A call that is not the super-user's never writes a hard limit above the
one of its snapshot, so never above the limit in force when that is still the
snapshot. -/
theorem update_max_le_of_fresh (passed : dosetrlimitCheck false limits which newrlim = .ok p)
    (wrote : dosetrlimitSwitch cfg false env p = .ok r) {current : Rlimit} (fresh : current = p.rlim) :
    r.max ≤ current.max := by
  obtain ⟨_, _, _, bounded⟩ := dosetrlimitCheck_ok passed
  rw [fresh]
  exact UInt64.le_trans (dosetrlimitSwitch_max_le wrote) (bounded rfl)

end Call

section Run

variable {cfg : Tunables} {root : Bool}

/-- Every limit has its soft value at most its hard value, and so does every
request in flight. -/
structure Sound (s : Proc) : Prop where
  limits : ∀ w, (s.limits w).cur ≤ (s.limits w).max
  pending : ∀ p ∈ s.pending, p.newrlim.cur ≤ p.newrlim.max

theorem mem_of_mem_removed {s : Proc} {pre post : List Pending} {p q : Pending} (split : s.pending = pre ++ p :: post)
    (mem : q ∈ pre ++ post) : q ∈ s.pending := by
  rw [split]
  simp only [List.mem_append, List.mem_cons] at mem ⊢
  tauto

theorem Step.sound {s s' : Proc} (step : Step cfg root s s') (sound : Sound s) : Sound s' := by
  cases step with
  | check passed =>
    obtain ⟨_, ordered, _, _⟩ := dosetrlimitCheck_ok passed
    refine ⟨sound.limits, fun q mem => ?_⟩
    rcases List.mem_cons.mp mem with rfl | old
    · exact ordered
    · exact sound.pending q old
  | @update pre post p env r split wrote =>
    have ordered := sound.pending p (by rw [split]; simp)
    refine ⟨fun w => ?_, fun q mem => sound.pending q (mem_of_mem_removed split mem)⟩
    dsimp only
    by_cases same : w = p.which.toNat
    · subst same
      rw [Function.update_self]
      exact dosetrlimitSwitch_ordered wrote ordered
    · rw [Function.update_of_ne same]
      exact sound.limits w
  | @fail pre post p env e split _ =>
    exact ⟨sound.limits, fun q mem => sound.pending q (mem_of_mem_removed split mem)⟩

/-- Over every interleaving of calls from a sound start, every limit keeps
its soft value at most its hard value. -/
theorem dosetrlimit_run_sound {start s : Proc} (sound : Sound start)
    (run : Relation.ReflTransGen (Step cfg root) start s) : Sound s := by
  induction run with
  | refl => exact sound
  | tail _ step ih => exact step.sound ih

/-- A call that lowers the hard limit of `RLIMIT_NOFILE`, from a start where
every limit is soft 10 and hard 100. -/
theorem dosetrlimit_run_sound_nofile :
    Sound ⟨Function.update (fun _ => ⟨10, 100⟩) 8 ⟨10, 50⟩, []⟩ :=
  @dosetrlimit_run_sound ⟨0x1000, 0x1000, 100, 50⟩ false ⟨fun _ => ⟨10, 100⟩, []⟩ _
    ⟨fun _ => (by decide : (10 : UInt64) ≤ 100), fun _ mem => absurd mem List.not_mem_nil⟩
    (.tail (.single (Step.check (by decide : dosetrlimitCheck false (fun _ => ⟨10, 100⟩) rlimitNofile ⟨10, 50⟩ =
        .ok ⟨rlimitNofile, false, ⟨10, 50⟩, ⟨10, 100⟩⟩)))
      (@Step.update _ false _ [] [] ⟨rlimitNofile, false, ⟨10, 50⟩, ⟨10, 100⟩⟩ ⟨false, true⟩ ⟨10, 50⟩ rfl
        (by simp [dosetrlimitSwitch, rlimitNofile, rlimitData, rlimitStack, rlimitNproc])))

end Run

/-- Two threads of a process that is not the super-user's set
`RLIMIT_NOFILE` from soft 10 and hard 100: one asks to keep the hard limit at
100, the other lowers it to 50. Both take their snapshots first and pass
their checks; the lowering updates first, and the other update then writes
the hard limit 100 over the 50 in force, with `suser()` never asked. -/
theorem dosetrlimit_raises_lowered_hard_limit (cfg : Tunables) :
    let start : Nat → Rlimit := fun _ => ⟨10, 100⟩
    let keep : Pending := ⟨rlimitNofile, false, ⟨10, 100⟩, ⟨10, 100⟩⟩
    let lower : Pending := ⟨rlimitNofile, false, ⟨10, 50⟩, ⟨10, 100⟩⟩
    let lowered : Nat → Rlimit := Function.update start 8 ⟨10, 50⟩
    Step cfg false ⟨start, []⟩ ⟨start, [keep]⟩ ∧
      Step cfg false ⟨start, [keep]⟩ ⟨start, [lower, keep]⟩ ∧
      Step cfg false ⟨start, [lower, keep]⟩ ⟨lowered, [keep]⟩ ∧
      Step cfg false ⟨lowered, [keep]⟩ ⟨Function.update lowered 8 ⟨10, 100⟩, []⟩ ∧
      (lowered 8).max < (Function.update lowered 8 ⟨10, 100⟩ 8).max := by
  intro start keep lower lowered
  have checkKeep : dosetrlimitCheck false start rlimitNofile ⟨10, 100⟩ = .ok keep := by decide
  have checkLower : dosetrlimitCheck false start rlimitNofile ⟨10, 50⟩ = .ok lower := by decide
  have writeLower : dosetrlimitSwitch cfg false ⟨false, true⟩ lower = .ok ⟨10, 50⟩ := by
    simp [dosetrlimitSwitch, lower, rlimitNofile, rlimitData, rlimitStack, rlimitNproc]
  have writeKeep : dosetrlimitSwitch cfg false ⟨false, true⟩ keep = .ok ⟨10, 100⟩ := by
    simp [dosetrlimitSwitch, keep, rlimitNofile, rlimitData, rlimitStack, rlimitNproc]
  exact ⟨Step.check checkKeep, Step.check checkLower,
    @Step.update cfg false ⟨start, [lower, keep]⟩ [] [keep] lower ⟨false, true⟩ ⟨10, 50⟩ rfl writeLower,
    @Step.update cfg false ⟨lowered, [keep]⟩ [] [] keep ⟨false, true⟩ ⟨10, 100⟩ rfl writeKeep, by decide⟩

end Xnu.Resource
