import Xnu.Sched.ClutchThread
import Xnu.Sched.ClutchRootSelect

namespace Xnu.Clutch

open Sched (RunQueue)

/-! What holds of the clutch hierarchy at every point of a run of thread
insertions and removals: each clutch bucket's thread runq holds exactly its
enqueued threads, in the stable order, and its counts and `scb_clutchpri_prioq`
agree with them; a clutch bucket sits in its root bucket's runq, at its
`scb_priority`, exactly while it holds a thread; the global load of a bucket
counts the clutch buckets queued there; and the root keeps the invariant of
`Xnu.Sched.ClutchRootSelect`. From it, `sched_clutch_root_pri_update` never
fails, and `sched_clutch_thread_highest_remove` returns THREAD_NULL exactly on
an empty hierarchy and otherwise removes the first thread of the highest
clutch bucket of the root bucket the selection picks. -/

section RootQueues

variable {tun : RootTunables} {ts : UInt64} {r r' r'' : Root}

/-- Two roots with the same run queue in every root bucket and the same
priorities of the clutch buckets: what a selection leaves alone. -/
def Root.SameQueues (r r' : Root) : Prop :=
  (∀ bound b, ((r'.side bound).buckets b).runq = ((r.side bound).buckets b).runq) ∧
    r'.clutchBucketPriority = r.clutchBucketPriority ∧ r'.clutchBucketMaxSchedPri = r.clutchBucketMaxSchedPri

theorem Root.SameQueues.refl (r : Root) : r.SameQueues r := ⟨fun _ _ => rfl, rfl, rfl⟩

theorem Root.SameQueues.trans (first : r.SameQueues r') (second : r'.SameQueues r'') : r.SameQueues r'' :=
  ⟨fun bound b => (second.1 bound b).trans (first.1 bound b), second.2.1.trans first.2.1, second.2.2.trans first.2.2⟩

theorem Root.sameQueues_setSide {bound : Bool} {side' : RootSide}
    (runqs : ∀ b, (side'.buckets b).runq = ((r.side bound).buckets b).runq) : r.SameQueues (r.setSide bound side') := by
  refine ⟨fun other b => ?_, by simp, by simp⟩
  by_cases here : other = bound
  · subst here
    simpa using runqs b
  · rw [Root.side_setSide_of_ne here]

theorem Root.sameQueues_setBucket (rb : RootBucketRef) {x : RootBucket} (runq : x.runq = (r.bucketAt rb).runq) :
    r.SameQueues (r.setBucket rb x) := by
  rw [Root.setBucket_eq]
  refine Root.sameQueues_setSide fun b => ?_
  by_cases here : b = rb.bucket
  · subst here
    simpa using runq
  · simp [here]

theorem rootBucketDeadlineUpdate_sameQueues {rb : RootBucketRef}
    (updated : rootBucketDeadlineUpdate tun r rb ts = some r') : r.SameQueues r' := by
  unfold rootBucketDeadlineUpdate at updated
  dsimp only at updated
  split at updated
  · cases updated
    exact .refl r
  · split at updated
    · cases updated
    · split at updated
      · obtain ⟨h, -, rfl⟩ := Option.map_eq_some_iff.mp updated
        refine Root.sameQueues_setSide fun b => ?_
        by_cases here : b = rb.bucket
        · subst here
          simp
        · simp [here]
      · cases updated
        exact .refl r

/-- The loop at `evaluate_root_buckets` moves deadlines, warps and starvation
flags, and no run queue. -/
theorem evaluateRootBuckets_sameQueues {type : HighestRootBucketType} {highest : Int} {rb : RootBucketRef} :
    ∀ {fuel : Nat} {r r' : Root}, evaluateRootBuckets tun ts type highest fuel r = some (rb, r') → r.SameQueues r'
  | 0, _, _, found => by cases found
  | fuel + 1, r, r', found => by
    rw [evaluateRootBuckets] at found
    obtain ⟨edf, -, found⟩ := Option.bind_eq_some_iff.mp found
    dsimp only at found
    split at found
    · split at found
      · obtain ⟨window, -, found⟩ := Option.bind_eq_some_iff.mp found
        split at found
        · obtain ⟨-, rfl⟩ := Prod.mk.inj (Option.some.inj found)
          exact .refl r
        · -- the starvation window closed: the flag goes and the deadline moves on
          obtain ⟨updated, update, rest⟩ := Option.bind_eq_some_iff.mp found
          have moved := rootBucketDeadlineUpdate_sameQueues update
          exact ((Root.sameQueues_setBucket edf (by rfl)).trans moved).trans (evaluateRootBuckets_sameQueues rest)
      · split at found
        · obtain ⟨-, rfl⟩ := Prod.mk.inj (Option.some.inj found)
          exact Root.sameQueues_setBucket edf rfl
        · obtain ⟨updated, update, found⟩ := Option.map_eq_some_iff.mp found
          obtain ⟨-, rfl⟩ := Prod.mk.inj found
          have moved := rootBucketDeadlineUpdate_sameQueues update
          exact (moved.trans (Root.sameQueues_setBucket edf (by rfl))).trans (Root.sameQueues_setSide fun _ => by rfl)
    · split at found
      · obtain ⟨updated, update, found⟩ := Option.map_eq_some_iff.mp found
        obtain ⟨-, rfl⟩ := Prod.mk.inj found
        have moved := rootBucketDeadlineUpdate_sameQueues update
        exact (Root.sameQueues_setBucket _ (by rfl)).trans moved
      · split at found
        · obtain ⟨updated, update, found⟩ := Option.map_eq_some_iff.mp found
          obtain ⟨-, rfl⟩ := Prod.mk.inj found
          exact rootBucketDeadlineUpdate_sameQueues update
        · -- the warp window closed: the warp is spent and its bit cleared
          have rest := evaluateRootBuckets_sameQueues found
          exact (Root.sameQueues_setBucket _ (by rfl)).trans ((Root.sameQueues_setSide fun _ => by rfl).trans rest)

theorem rootHighestRootBucket_sameQueues {fuel : Nat} {type : HighestRootBucketType} {res : Option RootBucketRef}
    (found : rootHighestRootBucket tun fuel r ts type = some (res, r')) : r.SameQueues r' := by
  unfold rootHighestRootBucket at found
  dsimp only at found
  split at found
  · cases found
    exact .refl r
  · obtain ⟨aboveui, -, found⟩ := Option.bind_eq_some_iff.mp found
    -- every branch but the EDF loop hands the root back as it is
    have evaluate : (evaluateRootBuckets tun ts type (highestRunnableBucket r type) fuel r).map
        (fun selected => (some selected.1, selected.2)) = some (res, r') → r.SameQueues r' := fun evaluated => by
      obtain ⟨⟨rb, r''⟩, loop, same⟩ := Option.map_eq_some_iff.mp evaluated
      cases same
      exact evaluateRootBuckets_sameQueues loop
    cases type with
    | unboundOnly =>
      dsimp only at found
      split at found
      · cases found
        exact .refl r
      · exact evaluate found
    | all =>
      dsimp only at found
      split at found
      · obtain ⟨_, -, found⟩ := Option.map_eq_some_iff.mp found
        cases found
        exact .refl r
      · split at found
        · cases found
          exact .refl r
        · split at found
          · cases found
            exact .refl r
          · exact evaluate found

end RootQueues

section ClutchBucketLevels

variable {rq rq' : RunQueue Nat} {x y pri p : Nat} {headq : Bool}

theorem mem_clutchBucketRunqEnqueue (rq : RunQueue Nat) (x pri : Nat) (headq : Bool) :
    y ∈ (clutchBucketRunqEnqueue rq x pri headq).queues p ↔ (p = pri ∧ y = x) ∨ y ∈ rq.queues p :=
  Sched.mem_runQueueEnqueue (!headq)

theorem nodup_clutchBucketRunqEnqueue (nodup : ∀ p, (rq.queues p).Nodup) (fresh : x ∉ rq.queues pri) :
    ∀ p, ((clutchBucketRunqEnqueue rq x pri headq).queues p).Nodup :=
  Sched.nodup_runQueueEnqueue (!headq) nodup fresh

theorem mem_clutchBucketRunqRemove (rq : RunQueue Nat) (x pri : Nat) (nodup : (rq.queues pri).Nodup) :
    y ∈ (clutchBucketRunqRemove rq x pri).queues p ↔ y ∈ rq.queues p ∧ ¬(p = pri ∧ y = x) :=
  Sched.mem_runQueueRemove nodup

theorem nodup_clutchBucketRunqRemove (nodup : ∀ p, (rq.queues p).Nodup) :
    ∀ p, ((clutchBucketRunqRemove rq x pri).queues p).Nodup :=
  Sched.nodup_runQueueRemove nodup

theorem clutchBucketRunqRotate_perm (rotated : clutchBucketRunqRotate rq x pri = some rq') :
    ∀ p, (rq'.queues p).Perm (rq.queues p) := by
  unfold clutchBucketRunqRotate at rotated
  split at rotated
  · rename_i first rest level
    split at rotated
    · cases rotated
      intro p
      by_cases here : p = pri
      · subst here
        simp [level]
      · simp [here]
    · cases rotated
  · cases rotated

theorem clutchBucketRunqRotate_count (rotated : clutchBucketRunqRotate rq x pri = some rq') : rq'.count = rq.count := by
  unfold clutchBucketRunqRotate at rotated
  split at rotated
  · split at rotated
    · cases rotated
      rfl
    · cases rotated
  · cases rotated

end ClutchBucketLevels

section Requeue

variable {tun : RootTunables} {ts : UInt64} {r r₁ r' : Root} {b : Nat} {rq : RunQueue Nat}

/-- `r'` is `r` with the run queue of unbound root bucket `b` replaced by `rq`:
no other run queue, no bound bit and no clutch bucket priority moves. -/
structure Root.Requeued (r r' : Root) (b : Nat) (rq : RunQueue Nat) : Prop where
  runq : ∀ b', (r'.unbound.buckets b').runq = if b' = b then rq else (r.unbound.buckets b').runq
  bound : r'.bound.runnableBitmap = r.bound.runnableBitmap
  priority : r'.clutchBucketPriority = r.clutchBucketPriority
  maxSchedPri : r'.clutchBucketMaxSchedPri = r.clutchBucketMaxSchedPri

@[simp] theorem Root.setSide_false_unbound {side : RootSide} : (r.setSide false side).unbound = side := rfl

@[simp] theorem Root.setSide_false_bound {side : RootSide} : (r.setSide false side).bound = r.bound := rfl

theorem Root.requeued_setBucket (b : Nat) (x : RootBucket) : Root.Requeued r (r.setBucket ⟨false, b⟩ x) b x.runq := by
  refine ⟨fun b' => ?_, rfl, rfl, rfl⟩
  by_cases here : b' = b
  · subst here
    simp
  · simp [here]

theorem Root.Requeued.refl (r : Root) (b : Nat) : Root.Requeued r r b (r.unbound.buckets b).runq :=
  ⟨fun b' => by split <;> simp_all, rfl, rfl, rfl⟩

theorem Root.SameQueues.requeued (same : r.SameQueues r₁) (bound : r₁.bound.runnableBitmap = r.bound.runnableBitmap)
    (requeued : Root.Requeued r₁ r' b rq) : Root.Requeued r r' b rq := by
  refine ⟨fun b' => ?_, requeued.bound.trans bound, requeued.priority.trans same.2.1,
    requeued.maxSchedPri.trans same.2.2⟩
  rw [requeued.runq b']
  split
  · rfl
  · exact same.1 false b'

theorem Root.Requeued.sameQueues (requeued : Root.Requeued r r₁ b rq) (same : r₁.SameQueues r')
    (bound : r'.bound.runnableBitmap = r₁.bound.runnableBitmap) : Root.Requeued r r' b rq :=
  ⟨fun b' => (same.1 false b').trans (requeued.runq b'), bound.trans requeued.bound,
    same.2.1.trans requeued.priority, same.2.2.trans requeued.maxSchedPri⟩

/-- Setting the run queue of unbound root bucket `b` to `f` of itself, on a
root that has `r`'s run queues. -/
theorem Root.requeued_setRunq (same : r.SameQueues r₁) (bound : r₁.bound = r.bound) (b : Nat)
    (f : RunQueue Nat → RunQueue Nat) :
    Root.Requeued r (r₁.setBucket ⟨false, b⟩ { r₁.bucketAt ⟨false, b⟩ with runq := f (r₁.bucketAt ⟨false, b⟩).runq })
      b (f (r.unbound.buckets b).runq) := by
  have held : (r₁.bucketAt ⟨false, b⟩).runq = (r.unbound.buckets b).runq := same.1 false b
  rw [held]
  exact same.requeued (by rw [bound]) (Root.requeued_setBucket b _)

theorem rootBucketRunnable_sameQueues (rb : RootBucketRef) : r.SameQueues (rootBucketRunnable tun r rb ts) := by
  unfold rootBucketRunnable
  dsimp only
  split
  · exact Root.sameQueues_setSide fun _ => rfl
  · refine Root.sameQueues_setSide fun b' => ?_
    by_cases here : b' = rb.bucket
    · subst here
      split <;> split <;> simp
    · split <;> split <;> simp [here]

theorem rootBucketRunnable_bound {rb : RootBucketRef} (unbound : rb.bound = false) :
    (rootBucketRunnable tun r rb ts).bound = r.bound := by
  unfold rootBucketRunnable
  simp only [unbound]
  split <;> rfl

theorem rootBucketEmpty_sameQueues {rb : RootBucketRef} (emptied : rootBucketEmpty r rb ts = some r') :
    r.SameQueues r' := by
  unfold rootBucketEmpty at emptied
  dsimp only at emptied
  split at emptied
  · cases emptied
    exact Root.sameQueues_setSide fun _ => rfl
  · obtain ⟨h, -, rfl⟩ := Option.map_eq_some_iff.mp emptied
    refine Root.sameQueues_setSide fun b' => ?_
    by_cases here : b' = rb.bucket
    · subst here
      split <;> try split
      all_goals simp
    · simp [here]

theorem rootBucketEmpty_bound {rb : RootBucketRef} (unbound : rb.bound = false)
    (emptied : rootBucketEmpty r rb ts = some r') : r'.bound = r.bound := by
  unfold rootBucketEmpty at emptied
  simp only [unbound] at emptied
  split at emptied
  · cases emptied
    rfl
  · obtain ⟨h, -, rfl⟩ := Option.map_eq_some_iff.mp emptied
    rfl

/-- `sched_clutch_bucket_hierarchy_insert` enqueues the clutch bucket in its
root bucket's runq at its priority, and moves nothing else a clutch bucket
reads. -/
theorem bucketHierarchyInsert_requeued {clutchBucket : Nat} {headq : Bool}
    (inserted : bucketHierarchyInsert tun r clutchBucket b ts headq = some r') :
    Root.Requeued r r' b (clutchBucketRunqEnqueue (r.unbound.buckets b).runq clutchBucket
      (r.clutchBucketPriority clutchBucket).toNat headq) ∧ (r.clutchBucketPriority clutchBucket).toNat < nrqsMax := by
  unfold bucketHierarchyInsert at inserted
  simp only [apply_ite Root.clutchBucketPriority, rootBucketRunnable_clutchBucketPriority, ite_self] at inserted
  split at inserted
  · rename_i inside
    cases inserted
    refine ⟨Root.requeued_setRunq ?_ ?_ b fun rq => clutchBucketRunqEnqueue rq clutchBucket _ headq, inside⟩
    -- making the root bucket runnable first moves no run queue
    · split
      · exact rootBucketRunnable_sameQueues _
      · exact .refl r
    · split
      · exact rootBucketRunnable_bound rfl
      · rfl
  · cases inserted

/-- `sched_clutch_bucket_hierarchy_remove` takes the clutch bucket out of its
root bucket's runq, where it sits at its priority. -/
theorem bucketHierarchyRemove_requeued {clutchBucket : Nat}
    (removed : bucketHierarchyRemove r clutchBucket b ts = some r') :
    Root.Requeued r r' b (clutchBucketRunqRemove (r.unbound.buckets b).runq clutchBucket
      (r.clutchBucketPriority clutchBucket).toNat) ∧
      clutchBucket ∈ (r.unbound.buckets b).runq.queues (r.clutchBucketPriority clutchBucket).toNat := by
  unfold bucketHierarchyRemove at removed
  dsimp only at removed
  split at removed
  · rename_i member
    refine ⟨?_, by simpa using member⟩
    have requeued := Root.requeued_setRunq (.refl r) rfl b fun rq =>
      clutchBucketRunqRemove rq clutchBucket (r.clutchBucketPriority clutchBucket).toNat
    split at removed
    · exact requeued.sameQueues (rootBucketEmpty_sameQueues removed)
        (by rw [rootBucketEmpty_bound rfl removed])
    · cases removed
      exact requeued
  · cases removed

/-- `sched_clutch_bucket_update` at the root: at the same priority the clutch
bucket stays in its level or is rotated there; at a new one it leaves its old
level, where it sits, for the new one. -/
theorem clutchBucketUpdate_requeued {clutchBucket : Nat} {newPri : UInt8} {headq samepriRr : Bool}
    (updated : clutchBucketUpdate r clutchBucket b newPri headq samepriRr = some r') :
    (newPri = r.clutchBucketPriority clutchBucket ∧ ∃ rq, Root.Requeued r r' b rq ∧
        (∀ p, (rq.queues p).Perm ((r.unbound.buckets b).runq.queues p)) ∧ rq.count = (r.unbound.buckets b).runq.count) ∨
      (newPri ≠ r.clutchBucketPriority clutchBucket ∧
        clutchBucket ∈ (r.unbound.buckets b).runq.queues (r.clutchBucketPriority clutchBucket).toNat ∧
        newPri.toNat < nrqsMax ∧
        Root.Requeued { r with clutchBucketPriority := Function.update r.clutchBucketPriority clutchBucket newPri } r' b
          (clutchBucketRunqEnqueue (clutchBucketRunqRemove (r.unbound.buckets b).runq clutchBucket
            (r.clutchBucketPriority clutchBucket).toNat) clutchBucket newPri.toNat headq)) := by
  unfold clutchBucketUpdate at updated
  dsimp only at updated
  split at updated
  · rename_i same
    refine Or.inl ⟨same, ?_⟩
    split at updated
    · -- `SCHED_CLUTCH_BUCKET_OPTIONS_SAMEPRI_RR`: a rotation within the level
      obtain ⟨rq, rotated, rfl⟩ := Option.map_eq_some_iff.mp updated
      exact ⟨rq, Root.requeued_setBucket b _, clutchBucketRunqRotate_perm rotated,
        clutchBucketRunqRotate_count rotated⟩
    · cases updated
      exact ⟨_, .refl r b, fun _ => .refl _, rfl⟩
  · rename_i moved
    split at updated
    · rename_i inside
      cases updated
      exact Or.inr ⟨moved, by simpa using inside.1, inside.2, Root.requeued_setBucket b _⟩
    · cases updated

end Requeue

section Invariant

variable (rtun : RootTunables)

/-- Thread `t` is enqueued in clutch bucket `clutchBucket`. -/
def Hierarchy.Holds (h : Hierarchy) (clutchBucket t : Nat) : Prop :=
  ∃ info, h.threads t = some info ∧ info.clutchBucket = clutchBucket

/-- The order of the stable queue `scb_thread_runq`. -/
def Hierarchy.runqRank (h : Hierarchy) : Nat → Int ×ₗ Int := PriorityQueue.stableRank h.runqKey h.runqStamp

/-- The thread runq of a clutch bucket holds its enqueued threads once each, in
the stable order, and its `scb_thr_count` and `scb_clutchpri_prioq` follow them. -/
structure ThreadsOk (h : Hierarchy) (clutchBucket : Nat) : Prop where
  members_iff : ∀ t, t ∈ Heap.membersOf (h.threadRunqs clutchBucket) ↔ h.Holds clutchBucket t
  nodup : (Heap.membersOf (h.threadRunqs clutchBucket)).Nodup
  ordered : ∀ runq ∈ h.threadRunqs clutchBucket, runq.Ordered (RankLe true h.runqRank)
  thr_count : (h.clutchBuckets clutchBucket).thrCount.toNat = (Heap.membersOf (h.threadRunqs clutchBucket)).length
  prioq : (h.clutchBuckets clutchBucket).clutchpriPrioq.Perm
    ((Heap.membersOf (h.threadRunqs clutchBucket)).filterMap fun t => (h.threads t).map HierarchyThread.pri)

/-- A clutch bucket sits in the runq of its root bucket at its `scb_priority`
and at no other level. -/
def Root.QueuedAt (r : Root) (clutchBucket : Nat) : Prop :=
  ∀ p, clutchBucket ∈ (r.unbound.buckets (clutchBucket % bucketSchedMax)).runq.queues p ↔
    p = (r.clutchBucketPriority clutchBucket).toNat

/-- A clutch bucket sits at no level of its root bucket's runq. -/
def Root.Unqueued (r : Root) (clutchBucket : Nat) : Prop :=
  ∀ p, clutchBucket ∉ (r.unbound.buckets (clutchBucket % bucketSchedMax)).runq.queues p

/-- A clutch bucket is queued at the root exactly while it holds a thread, and
the root reads the highest priority of its `scb_clutchpri_prioq`. -/
structure LinkOk (r : Root) (cb : ClutchBucket) (clutchBucket : Nat) : Prop where
  queued : cb.thrCount ≠ 0 → r.QueuedAt clutchBucket ∧ r.clutchBucketMaxSchedPri clutchBucket = clutchpriMaxSchedPri cb
  unqueued : cb.thrCount = 0 → r.Unqueued clutchBucket

/-- Each level of an unbound root bucket's runq holds clutch buckets of that
bucket, each at most once. -/
structure LevelsOk (r : Root) : Prop where
  bucket : ∀ b p x, x ∈ (r.unbound.buckets b).runq.queues p → x % bucketSchedMax = b
  nodup : ∀ b p, ((r.unbound.buckets b).runq.queues p).Nodup

/-- The root of the hierarchy: the root-level invariant at `now`, no bound root
bucket runnable, its levels of clutch buckets, and the global load of each
bucket counting, modulo `2^32`, the clutch buckets queued there. -/
structure RootOk (now : UInt64) (h : Hierarchy) : Prop where
  root : RootInv rtun now h.root
  bound_idle : ∀ b, h.root.bound.runnableBitmap b = false
  levels : LevelsOk h.root
  load : ∀ b, b < bucketSchedMax → h.bucketLoad b = UInt32.ofNat (h.root.unbound.buckets b).runq.count.toNat

/-- The enqueued threads. -/
def Hierarchy.enqueued (h : Hierarchy) : Set Nat := {t | (h.threads t).isSome}

/-- The enqueued threads at a `sched_pri` that `isUrgent` calls urgent. -/
def Hierarchy.urgentThreads (h : Hierarchy) (isUrgent : Nat → Bool) : Set Nat :=
  {t | ∃ info, h.threads t = some info ∧ isUrgent info.pri.schedPri.toNat}

/-- The threads of the hierarchy: every clutch bucket's, and `scr_thr_count` and
`scr_urgency` counting the enqueued threads and the urgent ones, the latter
modulo `2^16`. -/
structure ThreadsInv (h : Hierarchy) : Prop where
  threads_ok : ∀ clutchBucket, ThreadsOk h clutchBucket
  finite : h.enqueued.Finite
  thr_count : h.thrCount.toNat = h.enqueued.ncard
  urgency : h.urgency = Int16.ofNat (h.urgentThreads rtun.priorityIsUrgent).ncard

/-- The invariant of the clutch hierarchy once no timestamp passed so far is
past `now`: the root part, the threads, and every clutch bucket's place at the
root. -/
structure HierarchyInv (now : UInt64) (h : Hierarchy) : Prop where
  root_ok : RootOk rtun now h
  threads_inv : ThreadsInv rtun h
  link_ok : ∀ clutchBucket, LinkOk h.root (h.clutchBuckets clutchBucket) clutchBucket

end Invariant

section Links

variable {r r' : Root} {cb : ClutchBucket} {x b : Nat} {rq : RunQueue Nat}

/-- A clutch bucket keeps its link when its own place and priorities at the root do not move. -/
theorem LinkOk.frame (ok : LinkOk r cb x)
    (levels : ∀ p, x ∈ (r'.unbound.buckets (x % bucketSchedMax)).runq.queues p ↔
      x ∈ (r.unbound.buckets (x % bucketSchedMax)).runq.queues p)
    (priority : r'.clutchBucketPriority x = r.clutchBucketPriority x)
    (maxSchedPri : r'.clutchBucketMaxSchedPri x = r.clutchBucketMaxSchedPri x) : LinkOk r' cb x where
  queued held := by
    obtain ⟨queuedAt, max⟩ := ok.queued held
    exact ⟨fun p => by rw [levels, priority]; exact queuedAt p, maxSchedPri.trans max⟩
  unqueued idle p := by
    rw [levels]
    exact ok.unqueued idle p

theorem LinkOk.congr {cb' : ClutchBucket} (ok : LinkOk r cb x) (count : cb'.thrCount = cb.thrCount)
    (prioq : cb'.clutchpriPrioq = cb.clutchpriPrioq) : LinkOk r cb' x where
  queued held := by
    rw [count] at held
    simpa only [clutchpriMaxSchedPri, prioq] using ok.queued held
  unqueued idle := ok.unqueued (count ▸ idle)

/-- Requeueing root bucket `b` leaves every clutch bucket whose membership `rq`
keeps where it was. -/
theorem Root.Requeued.mem_of_same {r₀ : Root} (requeued : Root.Requeued r₀ r' b rq)
    (same : ∀ p, x ∈ rq.queues p ↔ x ∈ (r₀.unbound.buckets b).runq.queues p) (b' p : Nat) :
    x ∈ (r'.unbound.buckets b').runq.queues p ↔ x ∈ (r₀.unbound.buckets b').runq.queues p := by
  rw [requeued.runq b']
  split
  · rename_i here
    subst here
    exact same p
  · rfl

/-- The levels stay well formed when the new runq of root bucket `b` holds
clutch buckets of `b`, each at most once per level. -/
theorem LevelsOk.requeued {r₀ : Root} (ok : LevelsOk r₀) (requeued : Root.Requeued r₀ r' b rq)
    (bucket : ∀ p y, y ∈ rq.queues p → y % bucketSchedMax = b) (nodup : ∀ p, (rq.queues p).Nodup) :
    LevelsOk r' where
  bucket b' p y member := by
    rw [requeued.runq b'] at member
    split at member
    · rename_i here
      exact here ▸ bucket p y member
    · exact ok.bucket b' p y member
  nodup b' p := by
    rw [requeued.runq b']
    split
    · exact nodup p
    · exact ok.nodup b' p

/-- `r'` moves no clutch bucket but `x` in the unbound runqs, and keeps the
priorities of the others and the bound runnable bits. -/
structure Root.MovesOnly (r r' : Root) (x : Nat) : Prop where
  levels : ∀ y, y ≠ x → ∀ b p, y ∈ (r'.unbound.buckets b).runq.queues p ↔ y ∈ (r.unbound.buckets b).runq.queues p
  priority : ∀ y, y ≠ x → r'.clutchBucketPriority y = r.clutchBucketPriority y
  maxSchedPri : ∀ y, y ≠ x → r'.clutchBucketMaxSchedPri y = r.clutchBucketMaxSchedPri y
  bound : r'.bound.runnableBitmap = r.bound.runnableBitmap

theorem Root.MovesOnly.trans {r'' : Root} (first : r.MovesOnly r' x) (second : r'.MovesOnly r'' x) :
    r.MovesOnly r'' x :=
  ⟨fun y apart b p => (second.levels y apart b p).trans (first.levels y apart b p),
    fun y apart => (second.priority y apart).trans (first.priority y apart),
    fun y apart => (second.maxSchedPri y apart).trans (first.maxSchedPri y apart), second.bound.trans first.bound⟩

/-- Writing priorities of clutch bucket `x` alone moves nothing else. -/
theorem Root.movesOnly_of_sides (unbound : r'.unbound = r.unbound) (bound : r'.bound = r.bound)
    (priority : ∀ y, y ≠ x → r'.clutchBucketPriority y = r.clutchBucketPriority y)
    (maxSchedPri : ∀ y, y ≠ x → r'.clutchBucketMaxSchedPri y = r.clutchBucketMaxSchedPri y) : r.MovesOnly r' x :=
  ⟨fun _ _ _ _ => by rw [unbound], priority, maxSchedPri, by rw [bound]⟩

theorem LinkOk.moves (ok : LinkOk r cb b) (moves : r.MovesOnly r' x) (apart : b ≠ x) : LinkOk r' cb b :=
  ok.frame (moves.levels b apart _) (moves.priority b apart) (moves.maxSchedPri b apart)

/-- Requeueing root bucket `b` with a runq that keeps every clutch bucket but
`x` where it was moves only `x`. -/
theorem Root.Requeued.movesOnly {r₀ : Root} (requeued : Root.Requeued r₀ r' b rq)
    (keep : ∀ y, y ≠ x → ∀ p, y ∈ rq.queues p ↔ y ∈ (r₀.unbound.buckets b).runq.queues p) : r₀.MovesOnly r' x :=
  ⟨fun y apart => requeued.mem_of_same (keep y apart), fun y _ => by rw [requeued.priority],
    fun y _ => by rw [requeued.maxSchedPri], requeued.bound⟩

end Links

section RootMoves

variable {tun : RootTunables} {ts : UInt64} {r r' : Root} {x : Nat}

theorem Root.QueuedAt.mem (queued : r.QueuedAt x) : x ∈ (r.unbound.buckets (x % bucketSchedMax)).runq.queues
    (r.clutchBucketPriority x).toNat :=
  (queued _).mpr rfl

/-- `sched_clutch_bucket_hierarchy_insert` of an unqueued clutch bucket queues it
at its priority, counts it in its root bucket's runq and moves nothing else. -/
theorem bucketHierarchyInsert_moves (levels : LevelsOk r) (unqueued : r.Unqueued x) {headq : Bool}
    (inserted : bucketHierarchyInsert tun r x (x % bucketSchedMax) ts headq = some r') :
    LevelsOk r' ∧ r'.QueuedAt x ∧ r'.clutchBucketPriority x = r.clutchBucketPriority x ∧
      r'.clutchBucketMaxSchedPri x = r.clutchBucketMaxSchedPri x ∧ r.MovesOnly r' x ∧
      ∀ b, (r'.unbound.buckets b).runq.count = (r.unbound.buckets b).runq.count + if b = x % bucketSchedMax then 1 else 0 := by
  obtain ⟨requeued, -⟩ := bucketHierarchyInsert_requeued inserted
  have enqueued := fun p y => mem_clutchBucketRunqEnqueue (y := y) (p := p)
    (r.unbound.buckets (x % bucketSchedMax)).runq x (r.clutchBucketPriority x).toNat headq
  refine ⟨levels.requeued requeued (fun p y member => ?_) ?_, fun p => ?_, by rw [requeued.priority],
    by rw [requeued.maxSchedPri], requeued.movesOnly fun y apart p => by simp [enqueued, apart], fun b => ?_⟩
  · rcases (enqueued p y).mp member with ⟨-, rfl⟩ | old
    · rfl
    · exact levels.bucket _ p y old
  · exact nodup_clutchBucketRunqEnqueue (levels.nodup _) (unqueued _)
  · rw [requeued.runq, if_pos rfl, enqueued, requeued.priority]
    simp [unqueued p]
  · rw [requeued.runq]
    split <;> simp_all

/-- `sched_clutch_bucket_hierarchy_remove` of a clutch bucket queued at its
priority leaves it unqueued, uncounted in its root bucket's runq, and moves
nothing else. -/
theorem bucketHierarchyRemove_moves (levels : LevelsOk r) (queued : r.QueuedAt x)
    (removed : bucketHierarchyRemove r x (x % bucketSchedMax) ts = some r') :
    LevelsOk r' ∧ r'.Unqueued x ∧ r.MovesOnly r' x ∧ r'.clutchBucketPriority = r.clutchBucketPriority ∧
      ∀ b, (r'.unbound.buckets b).runq.count = (r.unbound.buckets b).runq.count - if b = x % bucketSchedMax then 1 else 0 := by
  obtain ⟨requeued, -⟩ := bucketHierarchyRemove_requeued removed
  have taken := fun p y => mem_clutchBucketRunqRemove (y := y) (p := p)
    (r.unbound.buckets (x % bucketSchedMax)).runq x (r.clutchBucketPriority x).toNat (levels.nodup _ _)
  refine ⟨levels.requeued requeued (fun p y member => levels.bucket _ p y ((taken p y).mp member).1)
    (nodup_clutchBucketRunqRemove (levels.nodup _)), fun p => ?_,
    requeued.movesOnly fun y apart p => by simp [taken, apart], requeued.priority, fun b => ?_⟩
  · rw [requeued.runq, if_pos rfl, taken, queued p]
    simp
  · rw [requeued.runq]
    split <;> simp_all

/-- `sched_clutch_bucket_update` at the root of a clutch bucket queued at its
priority leaves it queued at its new priority, with every runq's count, and
moves nothing else. -/
theorem clutchBucketUpdate_moves (levels : LevelsOk r) (queued : r.QueuedAt x) {newPri : UInt8}
    {headq samepriRr : Bool} (updated : clutchBucketUpdate r x (x % bucketSchedMax) newPri headq samepriRr = some r') :
    LevelsOk r' ∧ r'.QueuedAt x ∧ r'.clutchBucketPriority x = newPri ∧ r.MovesOnly r' x ∧
      r'.clutchBucketMaxSchedPri = r.clutchBucketMaxSchedPri ∧
      ∀ b, (r'.unbound.buckets b).runq.count = (r.unbound.buckets b).runq.count := by
  rcases clutchBucketUpdate_requeued updated with ⟨same, rq, requeued, perm, count⟩ | ⟨moved, -, inside, requeued⟩
  · -- the same priority: the levels are permuted at most
    refine ⟨levels.requeued requeued (fun p y member => levels.bucket _ p y ((perm p).mem_iff.mp member))
      (fun p => (perm p).nodup_iff.mpr (levels.nodup _ p)), fun p => ?_, by rw [requeued.priority, same],
      requeued.movesOnly fun y _ p => (perm p).mem_iff, requeued.maxSchedPri, fun b => ?_⟩
    · rw [requeued.runq, if_pos rfl, (perm p).mem_iff, requeued.priority]
      exact queued p
    · rw [requeued.runq]
      split <;> simp_all
  · -- a new priority: out of the old level, into the new one
    have taken := fun p y => mem_clutchBucketRunqRemove (y := y) (p := p)
      (r.unbound.buckets (x % bucketSchedMax)).runq x (r.clutchBucketPriority x).toNat (levels.nodup _ _)
    have fresh : x ∉ (clutchBucketRunqRemove (r.unbound.buckets (x % bucketSchedMax)).runq x
        (r.clutchBucketPriority x).toNat).queues newPri.toNat := by
      rw [taken, queued]
      simp
    have enqueued := fun p y => mem_clutchBucketRunqEnqueue (y := y) (p := p)
      (clutchBucketRunqRemove (r.unbound.buckets (x % bucketSchedMax)).runq x (r.clutchBucketPriority x).toNat)
      x newPri.toNat headq
    have keep : ∀ y, y ≠ x → ∀ p, y ∈ (clutchBucketRunqEnqueue (clutchBucketRunqRemove
        (r.unbound.buckets (x % bucketSchedMax)).runq x (r.clutchBucketPriority x).toNat) x newPri.toNat headq).queues p ↔
        y ∈ (r.unbound.buckets (x % bucketSchedMax)).runq.queues p := fun y apart p => by
      simp [enqueued, taken, apart]
    have levels' : LevelsOk { r with clutchBucketPriority := Function.update r.clutchBucketPriority x newPri } :=
      ⟨levels.bucket, levels.nodup⟩
    have relabelled : r.MovesOnly { r with clutchBucketPriority := Function.update r.clutchBucketPriority x newPri } x :=
      Root.movesOnly_of_sides rfl rfl (fun _ apart => Function.update_of_ne apart _ _) fun _ _ => rfl
    refine ⟨levels'.requeued requeued (fun p y member => ?_)
      (nodup_clutchBucketRunqEnqueue (nodup_clutchBucketRunqRemove (levels.nodup _)) fresh), fun p => ?_,
      by rw [requeued.priority]; simp,
      relabelled.trans (requeued.movesOnly keep), by rw [requeued.maxSchedPri], fun b => ?_⟩
    · by_cases same : y = x
      · subst same
        rfl
      · exact levels.bucket _ p y ((keep y same p).mp member)
    · rw [requeued.runq, if_pos rfl, enqueued, taken, queued, requeued.priority]
      simp
    · rw [requeued.runq]
      split <;> simp_all

end RootMoves

section BucketOps

variable {ctun : Tunables} {rtun : RootTunables} {now ts : UInt64} {h h' : Hierarchy} {clutchBucket x : Nat}

/-- `h'` holds the threads of `h` in the same runqs and order, with the same
counts: what the clutch bucket and root routines leave alone. -/
structure Hierarchy.SameThreads (h h' : Hierarchy) : Prop where
  threads : h'.threads = h.threads
  threadRunqs : h'.threadRunqs = h.threadRunqs
  runqKey : h'.runqKey = h.runqKey
  runqStamp : h'.runqStamp = h.runqStamp
  thrCount : h'.thrCount = h.thrCount
  urgency : h'.urgency = h.urgency
  bucketThrCount : ∀ x, (h'.clutchBuckets x).thrCount = (h.clutchBuckets x).thrCount
  bucketPrioq : ∀ x, (h'.clutchBuckets x).clutchpriPrioq = (h.clutchBuckets x).clutchpriPrioq

theorem Hierarchy.SameThreads.trans {h'' : Hierarchy} (first : h.SameThreads h') (second : h'.SameThreads h'') :
    h.SameThreads h'' :=
  ⟨second.threads.trans first.threads, second.threadRunqs.trans first.threadRunqs, second.runqKey.trans first.runqKey,
    second.runqStamp.trans first.runqStamp, second.thrCount.trans first.thrCount, second.urgency.trans first.urgency,
    fun x => (second.bucketThrCount x).trans (first.bucketThrCount x),
    fun x => (second.bucketPrioq x).trans (first.bucketPrioq x)⟩

/-- A new root, `scr_priority`, load, and clutch bucket `x` with the same
threads leave the threads alone. -/
theorem Hierarchy.sameThreads_update {cb : ClutchBucket} (count : cb.thrCount = (h.clutchBuckets x).thrCount)
    (prioq : cb.clutchpriPrioq = (h.clutchBuckets x).clutchpriPrioq) (root : Root) (priority : Int16)
    (load : Nat → UInt32) :
    h.SameThreads
      { h with clutchBuckets := Function.update h.clutchBuckets x cb, root := root, priority := priority,
               bucketLoad := load } := by
  refine ⟨rfl, rfl, rfl, rfl, rfl, rfl, fun y => ?_, fun y => ?_⟩ <;>
  · by_cases here : y = x
    · subst here
      simpa
    · simp [here]

theorem Hierarchy.SameThreads.setPriority (same : h.SameThreads h') (priority : Int16) :
    h.SameThreads { h' with priority := priority } :=
  ⟨same.threads, same.threadRunqs, same.runqKey, same.runqStamp, same.thrCount, same.urgency, same.bucketThrCount,
    same.bucketPrioq⟩

theorem ThreadsOk.same (ok : ThreadsOk h x) (same : h.SameThreads h') : ThreadsOk h' x where
  members_iff t := by
    simpa only [Hierarchy.Holds, same.threads, same.threadRunqs] using ok.members_iff t
  nodup := by simpa only [same.threadRunqs] using ok.nodup
  ordered := by simpa only [Hierarchy.runqRank, same.threadRunqs, same.runqKey, same.runqStamp] using ok.ordered
  thr_count := by simpa only [same.bucketThrCount, same.threadRunqs] using ok.thr_count
  prioq := by simpa only [same.bucketPrioq, same.threadRunqs, same.threads] using ok.prioq

theorem RootOk.count_nonneg (ok : RootOk rtun now h) (b : Nat) : 0 ≤ (h.root.unbound.buckets b).runq.count :=
  ((ok.root false).bucket_ok b).runq_ok.count_nonneg

theorem RootOk.setPriority (ok : RootOk rtun ts h) (priority : Int16) : RootOk rtun ts { h with priority := priority } :=
  ⟨ok.root, ok.bound_idle, ok.levels, ok.load⟩

theorem bucketPriCalculate_fields {bucketLoad : Int32} {cb : ClutchBucket} {tgPri : TgPriority}
    {res : ClutchBucket × UInt8} (calculated : bucketPriCalculate ctun bucketLoad cb tgPri ts = some res) :
    res.1.thrCount = cb.thrCount ∧ res.1.clutchpriPrioq = cb.clutchpriPrioq ∧ (cb.thrCount = 0 → res.2 = 0) := by
  unfold bucketPriCalculate at calculated
  split at calculated
  · cases calculated
    exact ⟨rfl, rfl, fun _ => rfl⟩
  · rename_i held
    obtain ⟨_, -, rfl⟩ := Option.map_eq_some_iff.mp calculated
    exact ⟨rfl, rfl, fun idle => absurd idle held⟩

/-- `sched_clutch_bucket_pri_calculate` writes only the group of the clutch
bucket, and gives an empty one priority 0. -/
theorem Hierarchy.bucketPriCalculate_spec {pri : UInt8}
    (calculated : h.bucketPriCalculate ctun clutchBucket ts = some (h', pri)) :
    ∃ cb, h' = { h with clutchBuckets := Function.update h.clutchBuckets clutchBucket cb } ∧
      cb.thrCount = (h.clutchBuckets clutchBucket).thrCount ∧
      cb.clutchpriPrioq = (h.clutchBuckets clutchBucket).clutchpriPrioq ∧
      ((h.clutchBuckets clutchBucket).thrCount = 0 → pri = 0) := by
  obtain ⟨res, found, same⟩ := Option.map_eq_some_iff.mp calculated
  obtain ⟨rfl, rfl⟩ := Prod.mk.inj same
  exact ⟨res.1, rfl, bucketPriCalculate_fields found⟩

theorem clutchBucket_mod_lt (clutchBucket : Nat) : clutchBucket % bucketSchedMax < bucketSchedMax :=
  Nat.mod_lt _ (by decide)

/-- `sched_clutch_bucket_update` of a clutch bucket that holds threads and sits
at its priority, every other clutch bucket linked: every clutch bucket is
linked after, and the threads are as they were. -/
theorem Hierarchy.bucketUpdate_ok (rootOk : RootOk rtun now h) (later : now.toNat ≤ ts.toNat)
    (others : ∀ x, x ≠ clutchBucket → LinkOk h.root (h.clutchBuckets x) x)
    (held : (h.clutchBuckets clutchBucket).thrCount ≠ 0) (queued : h.root.QueuedAt clutchBucket)
    {headq samepriRr flag : Bool} (updated : h.bucketUpdate ctun rtun clutchBucket ts headq samepriRr = some (h', flag)) :
    RootOk rtun ts h' ∧ (∀ x, LinkOk h'.root (h'.clutchBuckets x) x) ∧ h.SameThreads h' := by
  unfold Hierarchy.bucketUpdate at updated
  obtain ⟨⟨h₁, newPri⟩, calculated, updated⟩ := Option.bind_eq_some_iff.mp updated
  obtain ⟨cb, rfl, count, prioq, -⟩ := Hierarchy.bucketPriCalculate_spec calculated
  obtain ⟨root, stepped, updated⟩ := Option.bind_eq_some_iff.mp updated
  simp only [rootStep, clutchBucket_mod_lt, if_true, Function.update_self] at stepped
  -- whatever `scr_priority` becomes, the rest is the updated root's
  obtain ⟨priority, rfl⟩ : ∃ priority, h' = { h with
      clutchBuckets := Function.update h.clutchBuckets clutchBucket cb, root := root, priority := priority } := by
    split at updated
    · obtain ⟨rfl, -⟩ := Prod.mk.inj (Option.some.inj updated)
      exact ⟨_, rfl⟩
    · obtain ⟨priority, -, same⟩ := Option.map_eq_some_iff.mp updated
      obtain ⟨rfl, -⟩ := Prod.mk.inj same
      exact ⟨priority, rfl⟩
  -- the root as `rootStep` hands it to `clutchBucketUpdate`
  set r₀ : Root := { h.root with
    clutchBucketMaxSchedPri := Function.update h.root.clutchBucketMaxSchedPri clutchBucket (clutchpriMaxSchedPri cb) }
    with root₀
  obtain ⟨levels, queuedAt, -, moves, maxSchedPri, counts⟩ := clutchBucketUpdate_moves (r := r₀)
    ⟨rootOk.levels.bucket, rootOk.levels.nodup⟩ queued stepped
  have relabelled : h.root.MovesOnly r₀ clutchBucket :=
    Root.movesOnly_of_sides rfl rfl (fun _ _ => rfl) fun _ apart => Function.update_of_ne apart _ _
  have moved := relabelled.trans moves
  refine ⟨⟨clutchBucketUpdate_inv (r := r₀) rootOk.root later stepped, fun b => ?_, levels, fun b small => ?_⟩,
    fun x => ?_, Hierarchy.sameThreads_update count prioq root priority h.bucketLoad⟩
  · simpa [moved.bound] using rootOk.bound_idle b
  · simpa [counts b] using rootOk.load b small
  · by_cases here : x = clutchBucket
    · subst here
      refine ⟨fun _ => ⟨queuedAt, ?_⟩, fun idle => absurd (count ▸ by simpa using idle) held⟩
      simp [maxSchedPri, root₀, clutchpriMaxSchedPri, prioq]
    · simpa [here] using (others x here).moves moved here

/-- `sched_clutch_bucket_hierarchy_insert` of a clutch bucket that holds
threads and is queued nowhere, at the priority its calculation gave, every
other clutch bucket linked: every clutch bucket is linked after, the load
counts the new one, and the threads are as they were. -/
theorem Hierarchy.bucketHierarchyInsert_ok (rootOk : RootOk rtun now h) (later : now.toNat ≤ ts.toNat)
    (noWrap : NoWrap rtun ts) (others : ∀ x, x ≠ clutchBucket → LinkOk h.root (h.clutchBuckets x) x)
    (held : (h.clutchBuckets clutchBucket).thrCount ≠ 0) (unqueued : h.root.Unqueued clutchBucket)
    {cb : ClutchBucket} (count : cb.thrCount = (h.clutchBuckets clutchBucket).thrCount)
    (prioq : cb.clutchpriPrioq = (h.clutchBuckets clutchBucket).clutchpriPrioq) {pri : UInt8} {headq : Bool}
    {root : Root} (stepped : bucketHierarchyInsert rtun { h.root with
      clutchBucketPriority := Function.update h.root.clutchBucketPriority clutchBucket pri
      clutchBucketMaxSchedPri := Function.update h.root.clutchBucketMaxSchedPri clutchBucket (clutchpriMaxSchedPri cb) }
      clutchBucket (clutchBucket % bucketSchedMax) ts headq = some root)
    (inserted : h' = { h with
      clutchBuckets := Function.update h.clutchBuckets clutchBucket cb, root := root,
      bucketLoad := Function.update h.bucketLoad (clutchBucket % bucketSchedMax)
        (h.bucketLoad (clutchBucket % bucketSchedMax) + 1) }) :
    RootOk rtun ts h' ∧ (∀ x, LinkOk h'.root (h'.clutchBuckets x) x) ∧ h.SameThreads h' := by
  subst inserted
  -- the root as `rootStep` hands it to `sched_clutch_bucket_hierarchy_insert`
  set r₀ : Root := { h.root with
    clutchBucketPriority := Function.update h.root.clutchBucketPriority clutchBucket pri
    clutchBucketMaxSchedPri := Function.update h.root.clutchBucketMaxSchedPri clutchBucket (clutchpriMaxSchedPri cb) }
    with root₀
  have unqueued₀ : r₀.Unqueued clutchBucket := unqueued
  obtain ⟨levels, queuedAt, -, maxSchedPri, moves, counts⟩ := bucketHierarchyInsert_moves (r := r₀)
    ⟨rootOk.levels.bucket, rootOk.levels.nodup⟩ unqueued₀ stepped
  have counted : ∀ b, (root.unbound.buckets b).runq.count =
      (h.root.unbound.buckets b).runq.count + if b = clutchBucket % bucketSchedMax then 1 else 0 := counts
  have relabelled : h.root.MovesOnly r₀ clutchBucket :=
    Root.movesOnly_of_sides rfl rfl (fun _ apart => Function.update_of_ne apart _ _)
      fun _ apart => Function.update_of_ne apart _ _
  have moved := relabelled.trans moves
  -- the clutch bucket sits at its priority and the load counts it
  refine ⟨⟨bucketHierarchyInsert_inv (r := r₀) rootOk.root later noWrap (clutchBucket_mod_lt _) stepped,
    fun b => ?_, levels, fun b small => ?_⟩, fun x => ?_, Hierarchy.sameThreads_update count prioq root h.priority _⟩
  · simpa [moved.bound] using rootOk.bound_idle b
  · have nonneg := rootOk.count_nonneg b
    by_cases here : b = clutchBucket % bucketSchedMax
    · have grown : (root.unbound.buckets b).runq.count.toNat = (h.root.unbound.buckets b).runq.count.toNat + 1 := by
        rw [counted, if_pos here]
        omega
      subst here
      simp [grown, rootOk.load _ small]
    · simp [here, counted, rootOk.load b small]
  · by_cases here : x = clutchBucket
    · subst here
      refine ⟨fun _ => ⟨queuedAt, ?_⟩, fun idle => absurd (count ▸ by simpa using idle) held⟩
      simp [maxSchedPri, root₀, clutchpriMaxSchedPri, prioq]
    · simpa [here] using (others x here).moves moved here

/-- `sched_clutch_bucket_runnable` of a clutch bucket that holds threads and is
queued nowhere, every other clutch bucket linked: every clutch bucket is linked
after, the load counts the new one, and the threads are as they were. -/
theorem Hierarchy.bucketRunnable_ok (rootOk : RootOk rtun now h) (later : now.toNat ≤ ts.toNat)
    (noWrap : NoWrap rtun ts) (others : ∀ x, x ≠ clutchBucket → LinkOk h.root (h.clutchBuckets x) x)
    (held : (h.clutchBuckets clutchBucket).thrCount ≠ 0) (unqueued : h.root.Unqueued clutchBucket)
    {headq flag : Bool} (runnable : h.bucketRunnable ctun rtun clutchBucket ts headq = some (h', flag)) :
    RootOk rtun ts h' ∧ (∀ x, LinkOk h'.root (h'.clutchBuckets x) x) ∧ h.SameThreads h' := by
  unfold Hierarchy.bucketRunnable at runnable
  obtain ⟨⟨h₁, pri⟩, calculated, runnable⟩ := Option.bind_eq_some_iff.mp runnable
  obtain ⟨cb, rfl, count, prioq, -⟩ := Hierarchy.bucketPriCalculate_spec calculated
  obtain ⟨root, stepped, runnable⟩ := Option.bind_eq_some_iff.mp runnable
  simp only [rootStep, clutchBucket_mod_lt, if_true, Function.update_self] at stepped
  have inserted := Hierarchy.bucketHierarchyInsert_ok rootOk later noWrap others held unqueued count prioq stepped rfl
  obtain ⟨timeshared, timeshare, finished⟩ := Option.bind_eq_some_iff.mp runnable
  obtain ⟨priority, -, same⟩ := Option.map_eq_some_iff.mp finished
  obtain ⟨rfl, -⟩ := Prod.mk.inj same
  -- `sched_clutch_bucket_group_timeshare_update` updates a timeshare clutch bucket once more
  have shared : RootOk rtun ts timeshared ∧ (∀ x, LinkOk timeshared.root (timeshared.clutchBuckets x) x) ∧
      h.SameThreads timeshared := by
    split at timeshare
    · cases timeshare
      exact inserted
    · obtain ⟨⟨h₃, _⟩, updated, rfl⟩ := Option.map_eq_some_iff.mp timeshare
      obtain ⟨rootOk₂, links₂, same₂⟩ := inserted
      have held₂ : (Function.update h.clutchBuckets clutchBucket cb clutchBucket).thrCount ≠ 0 := by
        simpa [count] using held
      obtain ⟨rootOk₃, links₃, same₃⟩ := Hierarchy.bucketUpdate_ok rootOk₂ (le_refl _) (fun x _ => links₂ x) held₂
        ((links₂ clutchBucket).queued held₂).1 updated
      exact ⟨rootOk₃, links₃, same₂.trans same₃⟩
  obtain ⟨rootOk', links', same'⟩ := shared
  exact ⟨rootOk'.setPriority priority, links', same'.setPriority priority⟩

/-- `sched_clutch_bucket_empty` of a clutch bucket that holds no thread and sits
at its priority, every other clutch bucket linked: every clutch bucket is
linked after, the load no longer counts it, and the threads are as they were. -/
theorem Hierarchy.bucketEmpty_ok (rootOk : RootOk rtun now h) (later : now.toNat ≤ ts.toNat)
    (others : ∀ x, x ≠ clutchBucket → LinkOk h.root (h.clutchBuckets x) x)
    (idle : (h.clutchBuckets clutchBucket).thrCount = 0) (queued : h.root.QueuedAt clutchBucket)
    (emptied : h.bucketEmpty ctun clutchBucket ts = some h') :
    RootOk rtun ts h' ∧ (∀ x, LinkOk h'.root (h'.clutchBuckets x) x) ∧ h.SameThreads h' := by
  unfold Hierarchy.bucketEmpty at emptied
  obtain ⟨root, removed, emptied⟩ := Option.bind_eq_some_iff.mp emptied
  obtain ⟨⟨h₂, pri⟩, calculated, emptied⟩ := Option.bind_eq_some_iff.mp emptied
  obtain ⟨cb, rfl, count, prioq, -⟩ := Hierarchy.bucketPriCalculate_spec calculated
  obtain ⟨priority, -, rfl⟩ := Option.map_eq_some_iff.mp emptied
  obtain ⟨levels, unqueued, moves, -, counts⟩ := bucketHierarchyRemove_moves rootOk.levels queued removed
  have member := count_ne_zero_of_mem ((rootOk.root false).bucket_ok (clutchBucket % bucketSchedMax)).runq_ok
    queued.mem
  have relabelled : root.MovesOnly { root with
      clutchBucketPriority := Function.update root.clutchBucketPriority clutchBucket pri } clutchBucket :=
    Root.movesOnly_of_sides rfl rfl (fun _ apart => Function.update_of_ne apart _ _) fun _ _ => rfl
  have moved := moves.trans relabelled
  have rootInv : RootInv rtun ts root := bucketHierarchyRemove_inv rootOk.root later (clutchBucket_mod_lt _) removed
  refine ⟨⟨rootInv, fun b => ?_, ⟨levels.bucket, levels.nodup⟩, fun b small => ?_⟩, fun x => ?_,
    Hierarchy.sameThreads_update (h := h) count prioq _ priority _⟩
  · simpa [moves.bound] using rootOk.bound_idle b
  · have nonneg := rootOk.count_nonneg b
    by_cases here : b = clutchBucket % bucketSchedMax
    · subst here
      have shrunk : (root.unbound.buckets (clutchBucket % bucketSchedMax)).runq.count.toNat + 1 =
          (h.root.unbound.buckets (clutchBucket % bucketSchedMax)).runq.count.toNat := by
        rw [counts, if_pos rfl]
        simp only [Root.side_false] at member
        omega
      simp [← shrunk, rootOk.load _ small]
    · simp [here, counts, rootOk.load b small]
  · by_cases here : x = clutchBucket
    · subst here
      exact ⟨fun held => absurd (by simpa [count] using idle) held, fun _ => unqueued⟩
    · simpa [here] using (others x here).moves moved here

theorem ThreadsInv.same (inv : ThreadsInv rtun h) (same : h.SameThreads h') : ThreadsInv rtun h' where
  threads_ok x := (inv.threads_ok x).same same
  finite := by simpa only [Hierarchy.enqueued, same.threads] using inv.finite
  thr_count := by simpa only [Hierarchy.enqueued, same.threads, same.thrCount] using inv.thr_count
  urgency := by simpa only [Hierarchy.urgentThreads, same.threads, same.urgency] using inv.urgency

end BucketOps

section ThreadOps

theorem clutchThrCountInc_toNat {count count' : UInt16} (inc : clutchThrCountInc count = some count') :
    count'.toNat = count.toNat + 1 := by
  unfold clutchThrCountInc at inc
  split at inc
  · cases inc
  · rename_i below
    cases inc
    have apart : count.toNat ≠ 65535 := fun same => below (UInt16.toNat_inj.mp (by simpa using same))
    have bound := count.toNat_lt
    rw [UInt16.toNat_add]
    simp only [UInt16.toNat_one]
    omega

theorem clutchThrCountDec_toNat {count count' : UInt16} (dec : clutchThrCountDec count = some count') :
    count'.toNat + 1 = count.toNat := by
  unfold clutchThrCountDec at dec
  split at dec
  · cases dec
  · rename_i held
    cases dec
    have apart : count.toNat ≠ 0 := fun same => held (UInt16.toNat_inj.mp (by simpa using same))
    rw [UInt16.toNat_sub_of_le]
    · simp only [UInt16.toNat_one]
      omega
    · rw [UInt16.le_iff_toNat_le]
      simp only [UInt16.toNat_one]
      omega

variable {rtun : RootTunables} {h h' : Hierarchy} {thread : Nat} {info : HierarchyThread}

theorem Hierarchy.runqBeats_decides (h : Hierarchy) : Heap.Decides h.runqBeats (RankLe true h.runqRank) :=
  PriorityQueue.beats_decides (PriorityQueue.stableCompare_sound h.runqKey h.runqStamp) true

/-- A heap stays ordered under new ranks that agree on its members. -/
theorem Heap.Ordered.rekey {hq : Heap Nat} {rank rank' : Nat → Int ×ₗ Int} (ordered : hq.Ordered (RankLe true rank))
    (same : ∀ t ∈ hq.members, rank' t = rank t) : hq.Ordered (RankLe true rank') :=
  ordered.imp_on fun a ha b hb below => RankLe.of_eq (same a ha) (same b hb) below

theorem ThreadsInv.not_mem (inv : ThreadsInv rtun h) (fresh : h.threads thread = none) (x : Nat) :
    thread ∉ Heap.membersOf (h.threadRunqs x) := fun member => by
  obtain ⟨_, enqueued, -⟩ := ((inv.threads_ok x).members_iff thread).mp member
  rw [fresh] at enqueued
  cases enqueued

theorem ThreadsInv.urgent_finite (inv : ThreadsInv rtun h) : (h.urgentThreads rtun.priorityIsUrgent).Finite :=
  inv.finite.subset fun t urgent => by
    obtain ⟨_, found, -⟩ := urgent
    simp [Hierarchy.enqueued, found]

theorem Hierarchy.enqueued_eq_insert (threads : h'.threads = Function.update h.threads thread (some info)) :
    h'.enqueued = insert thread h.enqueued := by
  ext t
  by_cases here : t = thread
  · subst here
    simp [Hierarchy.enqueued, threads]
  · simp [Hierarchy.enqueued, threads, here]

theorem Hierarchy.enqueued_eq_diff (threads : h'.threads = Function.update h.threads thread none) :
    h'.enqueued = h.enqueued \ {thread} := by
  ext t
  by_cases here : t = thread
  · subst here
    simp [Hierarchy.enqueued, threads]
  · simp [Hierarchy.enqueued, threads, here]

/-- The thread-level writes of `sched_clutch_thread_insert` of a thread that is
not enqueued: it joins the runq and `scb_clutchpri_prioq` of its clutch bucket,
which count it, as the root's counts do. -/
theorem ThreadsInv.enqueue (inv : ThreadsInv rtun h) (fresh : h.threads thread = none)
    (threads : h'.threads = Function.update h.threads thread (some info))
    (keys : ∀ t, t ≠ thread → h'.runqKey t = h.runqKey t ∧ h'.runqStamp t = h.runqStamp t)
    (runqs : h'.threadRunqs = Function.update h.threadRunqs info.clutchBucket
      (some (Heap.merge h'.runqBeats (h.threadRunqs info.clutchBucket) ⟨thread, .leaf⟩)))
    (others : ∀ x, x ≠ info.clutchBucket → h'.clutchBuckets x = h.clutchBuckets x)
    (count : (h'.clutchBuckets info.clutchBucket).thrCount.toNat =
      (h.clutchBuckets info.clutchBucket).thrCount.toNat + 1)
    (prioq : (h'.clutchBuckets info.clutchBucket).clutchpriPrioq =
      info.pri :: (h.clutchBuckets info.clutchBucket).clutchpriPrioq)
    (thrCount : h'.thrCount.toNat = h.thrCount.toNat + 1) (urgency : h'.urgency = rootUrgencyInc rtun h.urgency info) :
    ThreadsInv rtun h' := by
  have out := inv.not_mem fresh
  have rank : ∀ t, t ≠ thread → h'.runqRank t = h.runqRank t := fun t apart => by
    obtain ⟨key, stamp⟩ := keys t apart
    simp only [Hierarchy.runqRank, PriorityQueue.stableRank, key, stamp]
  have holds : ∀ x t, h'.Holds x t ↔ h.Holds x t ∨ (t = thread ∧ info.clutchBucket = x) := by
    intro x t
    by_cases here : t = thread
    · subst here
      simp [Hierarchy.Holds, threads, fresh]
    · simp [Hierarchy.Holds, threads, here]
  -- the other threads keep what the hierarchy reads of them
  have apart : ∀ x, ∀ t ∈ Heap.membersOf (h.threadRunqs x), t ≠ thread := fun x t member same =>
    out x (same ▸ member)
  have kept : ∀ x, ∀ t ∈ Heap.membersOf (h.threadRunqs x),
      (h'.threads t).map HierarchyThread.pri = (h.threads t).map HierarchyThread.pri := fun x t member => by
    rw [threads, Function.update_of_ne (apart x t member)]
  have grown := Hierarchy.enqueued_eq_insert threads
  refine ⟨fun x => ?_, grown ▸ inv.finite.insert thread, ?_, ?_⟩
  · have old := inv.threads_ok x
    by_cases here : x = info.clutchBucket
    · -- the thread's clutch bucket: its runq gains the thread
      subst here
      have nodup : (Heap.membersOf (h.threadRunqs info.clutchBucket) ++ [thread]).Nodup :=
        List.nodup_append.mpr ⟨old.nodup, List.nodup_singleton _, fun a member b single => by
          rw [List.mem_singleton] at single
          exact single ▸ apart _ a member⟩
      have perm := Heap.merge_perm h'.runqBeats (h.threadRunqs info.clutchBucket) ⟨thread, .leaf⟩
      refine ⟨fun t => ?_, ?_, ?_, ?_, ?_⟩
      · rw [runqs, Function.update_self, Heap.membersOf_some, Heap.mem_merge, holds, ← old.members_iff]
        simp [eq_comm]
      · rw [runqs, Function.update_self, Heap.membersOf_some]
        exact Heap.nodup_merge _ nodup
      · rw [runqs, Function.update_self]
        rintro _ ⟨⟩
        exact Heap.merge_ordered h'.runqBeats_decides
          (fun hq found => Heap.Ordered.rekey (old.ordered hq found) fun t member =>
            rank t (apart _ t (by rw [found, Heap.membersOf_some]; exact member)))
          (Heap.ordered_single _ _)
      · rw [count, old.thr_count, runqs, Function.update_self, Heap.membersOf_some, perm.length_eq]
        simp
      · rw [prioq, runqs, Function.update_self, Heap.membersOf_some]
        refine ((old.prioq.cons info.pri).trans ?_).trans (perm.filterMap _).symm
        rw [List.filterMap_append, List.filterMap_congr (kept _)]
        simpa [threads] using (List.perm_append_singleton _ _).symm
    · have runq : h'.threadRunqs x = h.threadRunqs x := by rw [runqs, Function.update_of_ne here]
      refine ⟨fun t => ?_, ?_, ?_, ?_, ?_⟩
      · rw [runq, holds, old.members_iff]
        simp [Ne.symm here]
      · simpa [runq] using old.nodup
      · rw [runq]
        exact fun hq found => Heap.Ordered.rekey (old.ordered hq found) fun t member =>
          rank t (apart x t (by rw [found, Heap.membersOf_some]; exact member))
      · rw [runq, others x here]
        exact old.thr_count
      · rw [runq, others x here, List.filterMap_congr (kept x)]
        exact old.prioq
  · rw [thrCount, grown, Set.ncard_insert_of_notMem (by simp [Hierarchy.enqueued, fresh]) inv.finite, inv.thr_count]
  · -- `sched_clutch_root_urgency_inc` counts the thread when its `sched_pri` is urgent
    have finite := inv.urgent_finite
    have notUrgent : thread ∉ h.urgentThreads rtun.priorityIsUrgent := by simp [Hierarchy.urgentThreads, fresh]
    rw [urgency, rootUrgencyInc, inv.urgency]
    split
    · rename_i urgent
      have grown : h'.urgentThreads rtun.priorityIsUrgent = insert thread (h.urgentThreads rtun.priorityIsUrgent) := by
        ext t
        by_cases here : t = thread
        · subst here
          simp [Hierarchy.urgentThreads, threads, urgent]
        · simp [Hierarchy.urgentThreads, threads, here]
      rw [grown, Set.ncard_insert_of_notMem notUrgent finite]
      simp
    · rename_i calm
      have same : h'.urgentThreads rtun.priorityIsUrgent = h.urgentThreads rtun.priorityIsUrgent := by
        ext t
        by_cases here : t = thread
        · subst here
          simp [Hierarchy.urgentThreads, threads, calm, fresh]
        · simp [Hierarchy.urgentThreads, threads, here]
      rw [same]

/-- The thread-level writes of `sched_clutch_thread_remove` of an enqueued
thread: it leaves the runq and `scb_clutchpri_prioq` of its clutch bucket,
which no longer count it, as the root's counts do not. -/
theorem ThreadsInv.dequeue (inv : ThreadsInv rtun h) (found : h.threads thread = some info) {runq : Heap Nat}
    (atRunq : h.threadRunqs info.clutchBucket = some runq)
    (threads : h'.threads = Function.update h.threads thread none)
    (key : h'.runqKey = h.runqKey) (stamp : h'.runqStamp = h.runqStamp)
    (runqs : h'.threadRunqs = Function.update h.threadRunqs info.clutchBucket (Heap.remove h.runqBeats thread runq))
    (others : ∀ x, x ≠ info.clutchBucket → h'.clutchBuckets x = h.clutchBuckets x)
    (count : (h'.clutchBuckets info.clutchBucket).thrCount.toNat + 1 =
      (h.clutchBuckets info.clutchBucket).thrCount.toNat)
    (prioq : (h'.clutchBuckets info.clutchBucket).clutchpriPrioq =
      (h.clutchBuckets info.clutchBucket).clutchpriPrioq.erase info.pri)
    (thrCount : h'.thrCount.toNat + 1 = h.thrCount.toNat) (urgency : h'.urgency = rootUrgencyDec rtun h.urgency info) :
    ThreadsInv rtun h' := by
  have rank : h'.runqRank = h.runqRank := by simp only [Hierarchy.runqRank, key, stamp]
  have holds : ∀ x t, h'.Holds x t ↔ h.Holds x t ∧ t ≠ thread := by
    intro x t
    by_cases here : t = thread
    · subst here
      simp [Hierarchy.Holds, threads]
    · simp [Hierarchy.Holds, threads, here]
  have kept : ∀ t, t ≠ thread →
      (h'.threads t).map HierarchyThread.pri = (h.threads t).map HierarchyThread.pri := fun t apart => by
    rw [threads, Function.update_of_ne apart]
  have shrunk := Hierarchy.enqueued_eq_diff threads
  have enqueued : thread ∈ h.enqueued := by simp [Hierarchy.enqueued, found]
  refine ⟨fun x => ?_, shrunk ▸ inv.finite.subset Set.sdiff_subset, ?_, ?_⟩
  · have old := inv.threads_ok x
    by_cases here : x = info.clutchBucket
    · -- the thread's clutch bucket: its runq loses the thread
      subst here
      have nodup : runq.members.Nodup := by simpa [atRunq] using old.nodup
      have member : thread ∈ runq.members := by
        simpa [atRunq] using (old.members_iff thread).mpr ⟨info, found, rfl⟩
      have perm := Heap.remove_perm h.runqBeats nodup member
      have rest := fun t => Heap.mem_remove h.runqBeats nodup member (x := t)
      refine ⟨fun t => ?_, ?_, ?_, ?_, ?_⟩
      · rw [runqs, Function.update_self, rest, holds, ← old.members_iff, atRunq, Heap.membersOf_some]
      · rw [runqs, Function.update_self]
        exact Heap.nodup_remove h.runqBeats nodup member
      · rw [runqs, Function.update_self, rank]
        exact Heap.remove_ordered h.runqBeats_decides thread (old.ordered runq atRunq)
      · have lengths := perm.length_eq
        rw [List.length_cons] at lengths
        rw [runqs, Function.update_self]
        have before := old.thr_count
        rw [atRunq, Heap.membersOf_some] at before
        omega
      · -- `scb_clutchpri_prioq` loses the thread's priorities, and the others keep theirs
        rw [runqs, Function.update_self, prioq]
        have before := old.prioq
        rw [atRunq, Heap.membersOf_some] at before
        have split := before.trans (perm.filterMap fun t => (h.threads t).map HierarchyThread.pri).symm
        simp only [List.filterMap_cons, found, Option.map_some] at split
        have erased := split.erase info.pri
        rw [List.erase_cons_head] at erased
        rw [List.filterMap_congr fun t member => kept t ((rest t).mp member).2]
        exact erased
    · have runqSame : h'.threadRunqs x = h.threadRunqs x := by rw [runqs, Function.update_of_ne here]
      have apart : ∀ t ∈ Heap.membersOf (h.threadRunqs x), t ≠ thread := fun t member same => by
        obtain ⟨_, atThread, inX⟩ := (old.members_iff t).mp member
        rw [same, found] at atThread
        cases atThread
        exact here inX.symm
      refine ⟨fun t => ?_, ?_, ?_, ?_, ?_⟩
      · rw [runqSame, holds, old.members_iff]
        exact ⟨fun held => ⟨held, apart t ((old.members_iff t).mpr held)⟩, fun held => held.1⟩
      · simpa [runqSame] using old.nodup
      · simpa [runqSame, rank] using old.ordered
      · rw [runqSame, others x here]
        exact old.thr_count
      · rw [runqSame, others x here, List.filterMap_congr fun t member => kept t (apart t member)]
        exact old.prioq
  · have total := Set.ncard_sdiff_singleton_add_one enqueued inv.finite
    have before := inv.thr_count
    rw [shrunk]
    omega
  · -- `sched_clutch_root_urgency_dec` uncounts the thread when its `sched_pri` is urgent
    have finite := inv.urgent_finite
    rw [urgency, rootUrgencyDec, inv.urgency]
    split
    · rename_i urgent
      have member : thread ∈ h.urgentThreads rtun.priorityIsUrgent := ⟨info, found, urgent⟩
      have shrunk : h'.urgentThreads rtun.priorityIsUrgent = h.urgentThreads rtun.priorityIsUrgent \ {thread} := by
        ext t
        by_cases here : t = thread
        · subst here
          simp [Hierarchy.urgentThreads, threads]
        · simp [Hierarchy.urgentThreads, threads, here]
      rw [shrunk, ← Set.ncard_sdiff_singleton_add_one member finite]
      simp
    · rename_i calm
      have same : h'.urgentThreads rtun.priorityIsUrgent = h.urgentThreads rtun.priorityIsUrgent := by
        ext t
        by_cases here : t = thread
        · subst here
          simp [Hierarchy.urgentThreads, threads, found, calm]
        · simp [Hierarchy.urgentThreads, threads, here]
      rw [same]

end ThreadOps

section ThreadSteps

variable {ctun : Tunables} {rtun : RootTunables} {now ts : UInt64} {h h' : Hierarchy} {thread : Nat}
  {info : HierarchyThread} {scbCount rootCount : UInt16}

theorem ThreadsInv.threadLink (inv : ThreadsInv rtun h) (fresh : h.threads thread = none)
    (scb : scbCount.toNat = (h.clutchBuckets info.clutchBucket).thrCount.toNat + 1)
    (root : rootCount.toNat = h.thrCount.toNat + 1) (tailq : Bool) :
    ThreadsInv rtun (h.threadLink rtun thread info tailq ts scbCount rootCount) :=
  inv.enqueue fresh rfl (fun t apart => by simp [Hierarchy.threadLink, Function.update_of_ne apart]) rfl
    (fun x apart => by simp [Hierarchy.threadLink, Function.update_of_ne apart])
    (by simpa [Hierarchy.threadLink] using scb) (by simp [Hierarchy.threadLink]) root rfl

theorem ThreadsInv.threadUnlink (inv : ThreadsInv rtun h) (found : h.threads thread = some info) {runq : Heap Nat}
    (atRunq : h.threadRunqs info.clutchBucket = some runq)
    (scb : scbCount.toNat + 1 = (h.clutchBuckets info.clutchBucket).thrCount.toNat)
    (root : rootCount.toNat + 1 = h.thrCount.toNat) :
    ThreadsInv rtun (h.threadUnlink rtun thread info runq ts scbCount rootCount) :=
  inv.dequeue found atRunq rfl rfl rfl rfl (fun x apart => by simp [Hierarchy.threadUnlink, Function.update_of_ne apart])
    (by simpa [Hierarchy.threadUnlink] using scb) (by simp [Hierarchy.threadUnlink]) root rfl

/-- The thread-level writes of `sched_clutch_thread_insert` leave the root and
every other clutch bucket alone. -/
theorem HierarchyInv.threadLink_root (inv : HierarchyInv rtun now h) {tailq : Bool}
    (linked : h' = h.threadLink rtun thread info tailq ts scbCount rootCount) :
    RootOk rtun now h' ∧ ∀ x, x ≠ info.clutchBucket → LinkOk h'.root (h'.clutchBuckets x) x := by
  subst linked
  exact ⟨⟨inv.root_ok.root, inv.root_ok.bound_idle, inv.root_ok.levels, inv.root_ok.load⟩, fun x apart => by
    simpa [Hierarchy.threadLink, Function.update_of_ne apart] using inv.link_ok x⟩

/-- The thread-level writes of `sched_clutch_thread_remove` leave the root and
every other clutch bucket alone. -/
theorem HierarchyInv.threadUnlink_root (inv : HierarchyInv rtun now h) {runq : Heap Nat}
    (unlinked : h' = h.threadUnlink rtun thread info runq ts scbCount rootCount) :
    RootOk rtun now h' ∧ ∀ x, x ≠ info.clutchBucket → LinkOk h'.root (h'.clutchBuckets x) x := by
  subst unlinked
  exact ⟨⟨inv.root_ok.root, inv.root_ok.bound_idle, inv.root_ok.levels, inv.root_ok.load⟩, fun x apart => by
    simpa [Hierarchy.threadUnlink, Function.update_of_ne apart] using inv.link_ok x⟩

theorem Hierarchy.threadInsert_inv (inv : HierarchyInv rtun now h) (later : now.toNat ≤ ts.toNat)
    (noWrap : NoWrap rtun ts) {tailq headq flag : Bool}
    (inserted : h.threadInsert ctun rtun thread info tailq headq ts = some (h', flag)) : HierarchyInv rtun ts h' := by
  unfold Hierarchy.threadInsert at inserted
  split at inserted
  · cases inserted
  · rename_i enqueued
    have fresh : h.threads thread = none := Option.not_isSome_iff_eq_none.mp enqueued
    obtain ⟨scbCount, scbInc, inserted⟩ := Option.bind_eq_some_iff.mp inserted
    obtain ⟨rootCount, rootInc, inserted⟩ := Option.bind_eq_some_iff.mp inserted
    have scb := clutchThrCountInc_toNat scbInc
    set linked := h.threadLink rtun thread info tailq ts scbCount rootCount with link
    have threadsInv : ThreadsInv rtun linked :=
      inv.threads_inv.threadLink fresh scb (clutchThrCountInc_toNat rootInc) tailq
    obtain ⟨rootOk, others⟩ := inv.threadLink_root link
    have count : (linked.clutchBuckets info.clutchBucket).thrCount = scbCount := by
      simp [link, Hierarchy.threadLink]
    have held : (linked.clutchBuckets info.clutchBucket).thrCount ≠ 0 := fun idle => by
      simp [← count, idle] at scb
    split at inserted
    · rename_i idle
      have unqueued : linked.root.Unqueued info.clutchBucket := (inv.link_ok _).unqueued idle
      obtain ⟨rootOk', links', same'⟩ := Hierarchy.bucketRunnable_ok rootOk later noWrap others held unqueued inserted
      exact ⟨rootOk', threadsInv.same same', links'⟩
    · rename_i busy
      have queued : linked.root.QueuedAt info.clutchBucket := ((inv.link_ok _).queued busy).1
      obtain ⟨rootOk', links', same'⟩ := Hierarchy.bucketUpdate_ok rootOk later others held queued inserted
      exact ⟨rootOk', threadsInv.same same', links'⟩

theorem Hierarchy.threadRemove_inv (inv : HierarchyInv rtun now h) (later : now.toNat ≤ ts.toNat)
    {headq samepriRr : Bool} (removed : h.threadRemove ctun rtun thread ts headq samepriRr = some h') :
    HierarchyInv rtun ts h' := by
  unfold Hierarchy.threadRemove at removed
  obtain ⟨info, found, removed⟩ := Option.bind_eq_some_iff.mp removed
  obtain ⟨runq, atRunq, removed⟩ := Option.bind_eq_some_iff.mp removed
  obtain ⟨rootCount, rootDec, removed⟩ := Option.bind_eq_some_iff.mp removed
  obtain ⟨scbCount, scbDec, removed⟩ := Option.bind_eq_some_iff.mp removed
  have scb := clutchThrCountDec_toNat scbDec
  set unlinked := h.threadUnlink rtun thread info runq ts scbCount rootCount with unlink
  have threadsInv : ThreadsInv rtun unlinked :=
    inv.threads_inv.threadUnlink found atRunq scb (clutchThrCountDec_toNat rootDec)
  obtain ⟨rootOk, others⟩ := inv.threadUnlink_root unlink
  -- the clutch bucket held the thread, so it sits at its priority
  have held : (h.clutchBuckets info.clutchBucket).thrCount ≠ 0 := fun idle => by simp [idle] at scb
  have queued : unlinked.root.QueuedAt info.clutchBucket := ((inv.link_ok _).queued held).1
  have count : (unlinked.clutchBuckets info.clutchBucket).thrCount = scbCount := by
    simp [unlink, Hierarchy.threadUnlink]
  split at removed
  · rename_i idle
    obtain ⟨rootOk', links', same'⟩ := Hierarchy.bucketEmpty_ok rootOk later others (count.trans idle) queued removed
    exact ⟨rootOk', threadsInv.same same', links'⟩
  · rename_i busy
    obtain ⟨⟨h'', flag⟩, updated, rfl⟩ := Option.map_eq_some_iff.mp removed
    obtain ⟨rootOk', links', same'⟩ :=
      Hierarchy.bucketUpdate_ok rootOk later others (count.trans_ne busy) queued updated
    exact ⟨rootOk', threadsInv.same same', links'⟩

end ThreadSteps

end Xnu.Clutch
