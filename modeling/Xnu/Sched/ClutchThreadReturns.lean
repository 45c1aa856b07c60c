import Xnu.Sched.ClutchThreadRun

namespace Xnu.Clutch

/-! Where the calls into the clutch hierarchy return. On a hierarchy that keeps
the invariant of `Xnu.Sched.ClutchThreadCorrect`, no assert, panic or NULL
dereference of `sched_clutch_bucket_runnable`, `sched_clutch_bucket_empty`,
`sched_clutch_bucket_update`, `sched_clutch_thread_insert`,
`sched_clutch_thread_remove` or `sched_clutch_thread_highest_remove` is reached,
but the overflow panic of a thread count at `UINT16_MAX`. What is left is the
priority of the clutch bucket: its score can divide by zero
(`bucketPriCalculate_undefined`), and a new priority past the `NRQS_MAX` levels
of the root bucket's runq has no level to go to. -/

/-- `sched_clutch_bucket_update` of clutch bucket `clutchBucket` at `timestamp`
faults on its priority: `sched_clutch_bucket_pri_calculate` divides by zero, or
computes a new priority past `NRQS_MAX`. -/
def Hierarchy.priCalculateFaults (ctun : Tunables) (h : Hierarchy) (clutchBucket : Nat) (timestamp : UInt64) : Bool :=
  match h.bucketPriCalculate ctun clutchBucket timestamp with
  | none => true
  | some (_, pri) => pri ≠ h.root.clutchBucketPriority clutchBucket && nrqsMax ≤ pri.toNat

/-- `sched_clutch_bucket_runnable` of clutch bucket `clutchBucket` at
`timestamp` faults on its priority: `sched_clutch_bucket_pri_calculate` divides
by zero or computes a priority past `NRQS_MAX`, or, for a timeshare clutch
bucket, the update that follows at the load that counts it faults. -/
def Hierarchy.runnablePriFaults (ctun : Tunables) (h : Hierarchy) (clutchBucket : Nat) (timestamp : UInt64) : Bool :=
  let bucket := clutchBucket % bucketSchedMax
  match h.bucketPriCalculate ctun clutchBucket timestamp with
  | none => true
  | some (h, pri) =>
    nrqsMax ≤ pri.toNat ||
      bucketShareFg ≤ bucket &&
        ({ h with
            root := { h.root with
              clutchBucketPriority := Function.update h.root.clutchBucketPriority clutchBucket pri }
            bucketLoad := Function.update h.bucketLoad bucket (h.bucketLoad bucket + 1) } : Hierarchy).priCalculateFaults
          ctun clutchBucket timestamp

section Root

variable {tun : RootTunables} {now ts : UInt64} {r : Root} {clutchBucket bucket : Nat}

/-- `sched_clutch_bucket_hierarchy_remove` of a clutch bucket queued at its
priority returns, and keeps the invariant: a timeshare root bucket it empties
is in the deadline queue. -/
theorem bucketHierarchyRemove_returns (inv : RootInv tun now r) (later : now.toNat ≤ ts.toNat)
    (small : bucket < bucketSchedMax)
    (member : clutchBucket ∈ (r.unbound.buckets bucket).runq.queues (r.clutchBucketPriority clutchBucket).toNat) :
    ∃ r', bucketHierarchyRemove r clutchBucket bucket ts = some r' ∧ RootInv tun ts r' := by
  suffices returns : ∃ r', bucketHierarchyRemove r clutchBucket bucket ts = some r' by
    obtain ⟨r', removed⟩ := returns
    exact ⟨r', removed, bucketHierarchyRemove_inv inv later small removed⟩
  have ok := (inv false).bucket_ok bucket
  have held : (r.unbound.buckets bucket).runq.count ≠ 0 := count_ne_zero_of_mem ok.runq_ok member
  unfold bucketHierarchyRemove
  dsimp only
  rw [if_pos (show clutchBucket ∈ (r.bucketAt ⟨false, bucket⟩).runq.queues _ from member)]
  split
  · unfold rootBucketEmpty
    split
    · exact ⟨_, rfl⟩
    · rename_i timeshare
      -- the runnable timeshare root bucket sits in the deadline queue
      have queued := ok.queued (ok.runnable_iff.mpr ⟨small, by simpa using held⟩) timeshare
      cases atHeap : r.unbound.rootBuckets with
      | none => simp [atHeap, Heap.membersOf] at queued
      | some heap => simp [atHeap]
  · exact ⟨_, rfl⟩

/-- `sched_clutch_bucket_hierarchy_insert` returns for a priority within
`NRQS_MAX`. -/
theorem bucketHierarchyInsert_returns (fits : (r.clutchBucketPriority clutchBucket).toNat < nrqsMax) (headq : Bool) :
    ∃ r', bucketHierarchyInsert tun r clutchBucket bucket ts headq = some r' := by
  unfold bucketHierarchyInsert
  dsimp only
  -- `sched_clutch_root_bucket_runnable` moves no clutch bucket priority
  split <;> simp [fits]

/-- `sched_clutch_bucket_update` at the root returns for a clutch bucket queued
at its priority, and keeps the invariant: a rotation finds it at the head of
its level, and a new priority is within `NRQS_MAX`. -/
theorem clutchBucketUpdate_returns (inv : RootInv tun now r) (later : now.toNat ≤ ts.toNat) {newPri : UInt8}
    (headq : Bool) {samepriRr : Bool}
    (member : clutchBucket ∈ (r.unbound.buckets bucket).runq.queues (r.clutchBucketPriority clutchBucket).toNat)
    (rotates : samepriRr = true →
      ((r.unbound.buckets bucket).runq.queues (r.clutchBucketPriority clutchBucket).toNat).head? = some clutchBucket)
    (fits : newPri ≠ r.clutchBucketPriority clutchBucket → newPri.toNat < nrqsMax) :
    ∃ r', clutchBucketUpdate r clutchBucket bucket newPri headq samepriRr = some r' ∧ RootInv tun ts r' := by
  suffices returns : ∃ r', clutchBucketUpdate r clutchBucket bucket newPri headq samepriRr = some r' by
    obtain ⟨r', updated⟩ := returns
    exact ⟨r', updated, clutchBucketUpdate_inv inv later updated⟩
  unfold clutchBucketUpdate
  dsimp only
  by_cases same : newPri = r.clutchBucketPriority clutchBucket
  · rw [if_pos same]
    cases samepriRr
    · exact ⟨_, rfl⟩
    · -- the rotation asserts the clutch bucket heads its level
      obtain ⟨rest, level⟩ := List.head?_eq_some_iff.mp (rotates rfl)
      simp [clutchBucketRunqRotate, Root.bucketAt_eq, level]
  · rw [if_neg same, if_pos (show clutchBucket ∈ (r.bucketAt ⟨false, bucket⟩).runq.queues _ ∧ _ from ⟨member, fits same⟩)]
    exact ⟨_, rfl⟩

/-- `sched_clutch_root_bucket_highest_clutch_bucket` takes the head of level `highq`. -/
theorem rootBucketHighestClutchBucket_head {x : RootBucket} (found : rootBucketHighestClutchBucket x = some clutchBucket) :
    (x.runq.queues x.runq.highq.toNat).head? = some clutchBucket := by
  unfold rootBucketHighestClutchBucket clutchBucketRunqPeek at found
  split at found
  · cases found
  · split at found
    · exact found
    · cases found

end Root

section Hierarchy

variable {ctun : Tunables} {rtun : RootTunables} {now ts : UInt64} {h : Hierarchy} {clutchBucket : Nat}

/-- `sched_clutch_bucket_pri_calculate` of an empty clutch bucket is 0 and
writes nothing. -/
theorem Hierarchy.bucketPriCalculate_of_idle (idle : (h.clutchBuckets clutchBucket).thrCount = 0) :
    h.bucketPriCalculate ctun clutchBucket ts = some (h, 0) := by
  simp [Hierarchy.bucketPriCalculate, Clutch.bucketPriCalculate, idle]

/-- `sched_clutch_bucket_empty` of an empty clutch bucket that sits at its
priority returns. -/
theorem Hierarchy.bucketEmpty_returns (rootOk : RootOk rtun now h) (later : now.toNat ≤ ts.toNat)
    (idle : (h.clutchBuckets clutchBucket).thrCount = 0) (queued : h.root.QueuedAt clutchBucket) :
    ∃ h', h.bucketEmpty ctun clutchBucket ts = some h' := by
  obtain ⟨root, removed, rootInv⟩ := bucketHierarchyRemove_returns rootOk.root later (clutchBucket_mod_lt clutchBucket)
    queued.mem
  obtain ⟨priority, updated, -⟩ := rootPriUpdate_spec (r := { root with
    clutchBucketPriority := Function.update root.clutchBucketPriority clutchBucket 0 }) rootInv
  -- the emptied clutch bucket computes priority 0 without dividing
  simp [Hierarchy.bucketEmpty, removed, Hierarchy.bucketPriCalculate_of_idle, idle, updated]

/-- `sched_clutch_bucket_update` of a clutch bucket that sits at its priority
returns, a rotation finding it at the head of its level, unless its priority
calculation faults. -/
theorem Hierarchy.bucketUpdate_returns (rootOk : RootOk rtun now h) (later : now.toNat ≤ ts.toNat)
    (queued : h.root.QueuedAt clutchBucket) {headq samepriRr : Bool}
    (rotates : samepriRr = true → ((h.root.unbound.buckets (clutchBucket % bucketSchedMax)).runq.queues
      (h.root.clutchBucketPriority clutchBucket).toNat).head? = some clutchBucket) :
    (∃ res, h.bucketUpdate ctun rtun clutchBucket ts headq samepriRr = some res) ∨
      h.priCalculateFaults ctun clutchBucket ts = true := by
  cases calculated : h.bucketPriCalculate ctun clutchBucket ts with
  | none => exact .inr (by simp [Hierarchy.priCalculateFaults, calculated])
  | some result =>
    obtain ⟨h₁, newPri⟩ := result
    by_cases fits : newPri ≠ h.root.clutchBucketPriority clutchBucket → newPri.toNat < nrqsMax
    · obtain ⟨cb, rfl, -, -, -⟩ := Hierarchy.bucketPriCalculate_spec calculated
      -- the root as `rootStep` hands it to `clutchBucketUpdate`
      obtain ⟨root, stepped, rootInv⟩ := clutchBucketUpdate_returns (r := { h.root with
        clutchBucketMaxSchedPri := Function.update h.root.clutchBucketMaxSchedPri clutchBucket (clutchpriMaxSchedPri cb) })
        rootOk.root later headq queued.mem rotates fits
      obtain ⟨priority, updated, -⟩ := rootPriUpdate_spec rootInv
      dsimp only at stepped
      left
      by_cases same : newPri = h.root.clutchBucketPriority clutchBucket
      · rw [same] at stepped
        simp [Hierarchy.bucketUpdate, calculated, rootStep, clutchBucket_mod_lt, stepped, same]
      · simp [Hierarchy.bucketUpdate, calculated, rootStep, clutchBucket_mod_lt, stepped, same, updated]
    · right
      simp only [Classical.not_imp, not_lt] at fits
      simpa [Hierarchy.priCalculateFaults, calculated] using fits

/-- `sched_clutch_bucket_pri_calculate` reads nothing of the root but the old
priority. -/
theorem Hierarchy.priCalculateFaults_setRoot (h : Hierarchy) {r : Root}
    (same : r.clutchBucketPriority = h.root.clutchBucketPriority) :
    ({ h with root := r } : Hierarchy).priCalculateFaults ctun clutchBucket ts = h.priCalculateFaults ctun clutchBucket ts := by
  unfold Hierarchy.priCalculateFaults Hierarchy.bucketPriCalculate
  cases Clutch.bucketPriCalculate ctun (h.bucketLoad (clutchBucket % bucketSchedMax)).toInt32 (h.clutchBuckets clutchBucket)
    (h.tgPriority (clutchBucket / bucketSchedMax)) ts <;> simp [same]

/-- `sched_clutch_bucket_runnable` of a clutch bucket that holds threads and is
queued nowhere, every other clutch bucket linked, returns unless its priority
calculation faults. -/
theorem Hierarchy.bucketRunnable_returns (rootOk : RootOk rtun now h) (later : now.toNat ≤ ts.toNat)
    (noWrap : NoWrap rtun ts) (others : ∀ x, x ≠ clutchBucket → LinkOk h.root (h.clutchBuckets x) x)
    (held : (h.clutchBuckets clutchBucket).thrCount ≠ 0) (unqueued : h.root.Unqueued clutchBucket) (headq : Bool) :
    (∃ res, h.bucketRunnable ctun rtun clutchBucket ts headq = some res) ∨
      h.runnablePriFaults ctun clutchBucket ts = true := by
  cases calculated : h.bucketPriCalculate ctun clutchBucket ts with
  | none => exact .inr (by simp [Hierarchy.runnablePriFaults, calculated])
  | some result =>
    obtain ⟨h₁, pri⟩ := result
    by_cases fits : pri.toNat < nrqsMax
    · obtain ⟨cb, rfl, count, prioq, -⟩ := Hierarchy.bucketPriCalculate_spec calculated
      -- the root as `rootStep` hands it to `sched_clutch_bucket_hierarchy_insert`
      obtain ⟨root, stepped⟩ : ∃ root, bucketHierarchyInsert rtun { h.root with
          clutchBucketPriority := Function.update h.root.clutchBucketPriority clutchBucket pri
          clutchBucketMaxSchedPri := Function.update h.root.clutchBucketMaxSchedPri clutchBucket (clutchpriMaxSchedPri cb) }
          clutchBucket (clutchBucket % bucketSchedMax) ts headq = some root :=
        bucketHierarchyInsert_returns (by simpa using fits) headq
      obtain ⟨h₂, inserted⟩ : ∃ h₂ : Hierarchy, h₂ = { h with
          clutchBuckets := Function.update h.clutchBuckets clutchBucket cb, root := root,
          bucketLoad := Function.update h.bucketLoad (clutchBucket % bucketSchedMax)
            (h.bucketLoad (clutchBucket % bucketSchedMax) + 1) } := ⟨_, rfl⟩
      obtain ⟨rootOk₂, links₂, -⟩ :=
        Hierarchy.bucketHierarchyInsert_ok rootOk later noWrap others held unqueued count prioq stepped inserted
      have running : h.bucketRunnable ctun rtun clutchBucket ts headq =
          (if clutchBucket % bucketSchedMax < bucketShareFg then some h₂
            else (h₂.bucketUpdate ctun rtun clutchBucket ts false false).map Prod.fst).bind fun h =>
              (rootPriUpdate h.root).map fun priority => ({ h with priority := priority }, decide (h.priority < priority)) := by
        simp [Hierarchy.bucketRunnable, calculated, rootStep, clutchBucket_mod_lt, stepped, inserted]
      rw [running]
      by_cases timeshare : clutchBucket % bucketSchedMax < bucketShareFg
      · obtain ⟨priority, updated, -⟩ := rootPriUpdate_spec rootOk₂.root
        exact .inl (by simp [timeshare, updated])
      -- `sched_clutch_bucket_group_timeshare_update` updates a timeshare clutch bucket once more
      have held₂ : (h₂.clutchBuckets clutchBucket).thrCount ≠ 0 := by simpa [inserted, count] using held
      have queued₂ : h₂.root.QueuedAt clutchBucket := ((links₂ clutchBucket).queued held₂).1
      obtain ⟨⟨h₃, flag⟩, updated⟩ | faults : (∃ res, h₂.bucketUpdate ctun rtun clutchBucket ts false false = some res) ∨
          h₂.priCalculateFaults ctun clutchBucket ts = true :=
        Hierarchy.bucketUpdate_returns rootOk₂ (le_refl _) queued₂ (fun never => by cases never)
      · obtain ⟨rootOk₃, -, -⟩ := Hierarchy.bucketUpdate_ok rootOk₂ (le_refl _) (fun x _ => links₂ x) held₂ queued₂ updated
        obtain ⟨priority, computed, -⟩ := rootPriUpdate_spec rootOk₃.root
        exact .inl (by simp [timeshare, updated, computed])
      · -- the update reads nothing of the inserted root but the priority it was given
        have priority₂ : root.clutchBucketPriority = Function.update h.root.clutchBucketPriority clutchBucket pri :=
          (bucketHierarchyInsert_requeued stepped).1.priority
        subst inserted
        right
        simp only [Hierarchy.runnablePriFaults, calculated]
        simp only [not_le.mpr fits, not_lt.mp timeshare, decide_false, decide_true, Bool.false_or, Bool.true_and]
        refine Eq.trans ?_ faults
        refine (Hierarchy.priCalculateFaults_setRoot _ ?_).symm
        simpa using priority₂
    · right
      simp [Hierarchy.runnablePriFaults, calculated]
      omega

/-- An enqueued thread holds a place in the runq of its clutch bucket and in
both counts. -/
theorem HierarchyInv.enqueued_held (inv : HierarchyInv rtun now h) {thread : Nat} {info : HierarchyThread}
    (found : h.threads thread = some info) :
    (∃ runq, h.threadRunqs info.clutchBucket = some runq) ∧ (h.clutchBuckets info.clutchBucket).thrCount ≠ 0 ∧
      h.thrCount ≠ 0 := by
  have ok := inv.threads_inv.threads_ok info.clutchBucket
  have holds : h.Holds info.clutchBucket thread := ⟨info, found, rfl⟩
  refine ⟨?_, ok.thrCount_ne_zero_iff.mpr ⟨thread, holds⟩, fun idle => ?_⟩
  · have member := (ok.members_iff thread).mpr holds
    cases atRunq : h.threadRunqs info.clutchBucket with
    | none => simp [atRunq, Heap.membersOf] at member
    | some runq => exact ⟨runq, rfl⟩
  · -- `scr_thr_count` counts the enqueued threads
    have count := inv.threads_inv.thr_count
    rw [idle, UInt16.toNat_zero] at count
    exact ((Set.ncard_pos inv.threads_inv.finite).mpr ⟨thread, Hierarchy.mem_enqueued holds⟩).ne count

/-- `sched_clutch_thread_remove` of an enqueued thread returns, a rotation
finding its clutch bucket at the head of its level, unless the clutch bucket
keeps threads and their priority calculation faults. -/
theorem Hierarchy.threadRemove_returns (inv : HierarchyInv rtun now h) (later : now.toNat ≤ ts.toNat)
    {thread : Nat} {info : HierarchyThread} (found : h.threads thread = some info) {headq samepriRr : Bool}
    (rotates : samepriRr = true → ((h.root.unbound.buckets (info.clutchBucket % bucketSchedMax)).runq.queues
      (h.root.clutchBucketPriority info.clutchBucket).toNat).head? = some info.clutchBucket) :
    (∃ h', h.threadRemove ctun rtun thread ts headq samepriRr = some h') ∨
      ∃ runq, h.threadRunqs info.clutchBucket = some runq ∧
        (h.threadUnlink rtun thread info runq ts ((h.clutchBuckets info.clutchBucket).thrCount - 1)
          (h.thrCount - 1)).priCalculateFaults ctun info.clutchBucket ts = true := by
  obtain ⟨⟨runq, atRunq⟩, held, rootHeld⟩ := inv.enqueued_held found
  set unlinked := h.threadUnlink rtun thread info runq ts ((h.clutchBuckets info.clutchBucket).thrCount - 1)
    (h.thrCount - 1) with unlink
  -- neither count underflows, and the clutch bucket routine runs on the unlinked hierarchy
  have removing : h.threadRemove ctun rtun thread ts headq samepriRr =
      if (h.clutchBuckets info.clutchBucket).thrCount - 1 = 0 then unlinked.bucketEmpty ctun info.clutchBucket ts
      else (unlinked.bucketUpdate ctun rtun info.clutchBucket ts headq samepriRr).map Prod.fst := by
    simp [Hierarchy.threadRemove, found, atRunq, clutchThrCountDec, held, rootHeld, unlink]
  obtain ⟨rootOk, -⟩ := inv.threadUnlink_root unlink
  have queued : unlinked.root.QueuedAt info.clutchBucket := ((inv.link_ok _).queued held).1
  rw [removing]
  by_cases idle : (h.clutchBuckets info.clutchBucket).thrCount - 1 = 0
  · rw [if_pos idle]
    exact .inl (Hierarchy.bucketEmpty_returns rootOk later (by simpa [unlink, Hierarchy.threadUnlink] using idle) queued)
  · rw [if_neg idle]
    obtain ⟨res, updated⟩ | faults : (∃ res, unlinked.bucketUpdate ctun rtun info.clutchBucket ts headq samepriRr = some res) ∨
        unlinked.priCalculateFaults ctun info.clutchBucket ts = true :=
      Hierarchy.bucketUpdate_returns rootOk later queued rotates
    · exact .inl ⟨res.1, by simp [updated]⟩
    · exact .inr ⟨runq, atRunq, faults⟩

/-- `sched_clutch_thread_insert` of a thread that is not enqueued returns,
unless one of the counts it increments is at `UINT16_MAX`, or the priority
calculation of its clutch bucket faults: that of `sched_clutch_bucket_runnable`
when the thread is the clutch bucket's first, that of
`sched_clutch_bucket_update` otherwise. -/
theorem Hierarchy.threadInsert_returns (inv : HierarchyInv rtun now h) (later : now.toNat ≤ ts.toNat)
    (noWrap : NoWrap rtun ts) {thread : Nat} (fresh : h.threads thread = none) (info : HierarchyThread)
    (tailq headq : Bool) :
    (∃ res, h.threadInsert ctun rtun thread info tailq headq ts = some res) ∨
      (h.clutchBuckets info.clutchBucket).thrCount = 0xffff ∨ h.thrCount = 0xffff ∨
      (if (h.clutchBuckets info.clutchBucket).thrCount = 0 then
        (h.threadLink rtun thread info tailq ts ((h.clutchBuckets info.clutchBucket).thrCount + 1)
          (h.thrCount + 1)).runnablePriFaults ctun info.clutchBucket ts
      else (h.threadLink rtun thread info tailq ts ((h.clutchBuckets info.clutchBucket).thrCount + 1)
          (h.thrCount + 1)).priCalculateFaults ctun info.clutchBucket ts) = true := by
  by_cases scbFull : (h.clutchBuckets info.clutchBucket).thrCount = 0xffff
  · exact .inr (.inl scbFull)
  by_cases rootFull : h.thrCount = 0xffff
  · exact .inr (.inr (.inl rootFull))
  set linked := h.threadLink rtun thread info tailq ts ((h.clutchBuckets info.clutchBucket).thrCount + 1)
    (h.thrCount + 1) with link
  -- neither count overflows, and the clutch bucket routine runs on the linked hierarchy
  have inserting : h.threadInsert ctun rtun thread info tailq headq ts =
      if (h.clutchBuckets info.clutchBucket).thrCount = 0 then linked.bucketRunnable ctun rtun info.clutchBucket ts headq
      else linked.bucketUpdate ctun rtun info.clutchBucket ts headq false := by
    simp [Hierarchy.threadInsert, fresh, clutchThrCountInc, scbFull, rootFull, link]
  obtain ⟨rootOk, others⟩ := inv.threadLink_root link
  rw [inserting]
  by_cases idle : (h.clutchBuckets info.clutchBucket).thrCount = 0
  · rw [if_pos idle, if_pos idle]
    have held : (linked.clutchBuckets info.clutchBucket).thrCount ≠ 0 := by simp [link, Hierarchy.threadLink, idle]
    have unqueued : linked.root.Unqueued info.clutchBucket := (inv.link_ok _).unqueued idle
    rcases Hierarchy.bucketRunnable_returns rootOk later noWrap others held unqueued headq with returns | faults
    · exact .inl returns
    · exact .inr (.inr (.inr faults))
  · rw [if_neg idle, if_neg idle]
    have queued : linked.root.QueuedAt info.clutchBucket := ((inv.link_ok _).queued idle).1
    obtain returns | faults : (∃ res, linked.bucketUpdate ctun rtun info.clutchBucket ts headq false = some res) ∨
        linked.priCalculateFaults ctun info.clutchBucket ts = true :=
      Hierarchy.bucketUpdate_returns rootOk later queued (fun never => by cases never)
    · exact .inl returns
    · exact .inr (.inr (.inr faults))

/-- `sched_clutch_thread_unbound_lookup` of a runnable unbound root bucket
finds a thread, the top of the runq of the clutch bucket that heads the
highest level; that clutch bucket sits at its own priority. -/
theorem HierarchyInv.threadUnboundLookup_returns (inv : HierarchyInv rtun now h) {b : Nat}
    (runnable : h.root.Runnable ⟨false, b⟩) :
    ∃ t info, h.threadUnboundLookup (h.root.unbound.buckets b) = some t ∧ h.threads t = some info ∧
      info.clutchBucket % bucketSchedMax = b ∧
      ((h.root.unbound.buckets b).runq.queues (h.root.clutchBucketPriority info.clutchBucket).toNat).head? =
        some info.clutchBucket := by
  have ok := (inv.root_ok.root false).bucket_ok b
  obtain ⟨cb, highest⟩ := rootBucketHighestClutchBucket_isSome ok.runq_ok (ok.runnable_iff.mp runnable).2
  obtain ⟨p, highq, member⟩ := rootBucketHighestClutchBucket_mem ok.runq_ok highest
  rw [Root.side_false] at highest highq member
  obtain ⟨home, busy, level⟩ := inv.queued_of_mem member
  -- the clutch bucket holds a thread, so its runq is there and its top is one of its threads
  obtain ⟨t, holds⟩ := (inv.threads_inv.threads_ok cb).thrCount_ne_zero_iff.mp busy
  obtain ⟨info, found, rfl⟩ := holds
  obtain ⟨⟨runq, atRunq⟩, -, -⟩ := inv.enqueued_held found
  have top : runq.root ∈ Heap.membersOf (h.threadRunqs info.clutchBucket) := by
    simp [atRunq, Heap.members]
  obtain ⟨info', found', sameBucket⟩ := ((inv.threads_inv.threads_ok _).members_iff _).mp top
  refine ⟨runq.root, info', ?_, found', by rw [sameBucket, home], ?_⟩
  · simp [Hierarchy.threadUnboundLookup, highest, atRunq]
  · have head := rootBucketHighestClutchBucket_head highest
    rw [highq, Int.toNat_natCast, level] at head
    rw [sameBucket]
    exact head

/-- `sched_clutch_thread_highest_remove` returns on a hierarchy that keeps the
invariant, unless the thread it takes leaves threads in its clutch bucket and
their priority calculation faults. -/
theorem Hierarchy.threadHighestRemove_returns (online : 0 < rtun.onlineProcessorCount) (inv : HierarchyInv rtun now h)
    (later : now.toNat ≤ ts.toNat) (noWrap : NoWrap rtun ts) :
    (∃ res, h.threadHighestRemove ctun rtun ts = some res) ∨
      ∃ t info runq, h.threads t = some info ∧ h.threadRunqs info.clutchBucket = some runq ∧
        (h.threadUnlink rtun t info runq ts ((h.clutchBuckets info.clutchBucket).thrCount - 1)
          (h.thrCount - 1)).priCalculateFaults ctun info.clutchBucket ts = true := by
  obtain ⟨picked, r₁, selected, rootInv, pickedOk⟩ :=
    rootHighestRootBucket_spec online noWrap (inv.root_ok.root.mono later) .all h.root.pending_lt_rootSelectFuel
  have same := rootHighestRootBucket_sameQueues selected
  have inv₁ := inv.setRoot rootInv same
  cases picked with
  | none => exact .inl ⟨(none, { h with root := r₁ }), by simp [Hierarchy.threadHighestRemove, selected]⟩
  | some rb =>
    obtain ⟨-, runnable⟩ := pickedOk.2 rb rfl
    obtain ⟨bound, b⟩ := rb
    cases bound
    · -- an unbound root bucket: the lookup finds a thread at the head of its level
      have runnable₁ : ({ h with root := r₁ } : Hierarchy).root.Runnable ⟨false, b⟩ :=
        (same.runnableBitmap inv.root_ok.root rootInv false b).trans runnable
      obtain ⟨t, info, lookup, found, home, head⟩ := inv₁.threadUnboundLookup_returns runnable₁
      obtain ⟨h', removed⟩ | ⟨runq, atRunq, faults⟩ :
          (∃ h', ({ h with root := r₁ } : Hierarchy).threadRemove ctun rtun t ts false true = some h') ∨
            ∃ runq, h.threadRunqs info.clutchBucket = some runq ∧
              (({ h with root := r₁ } : Hierarchy).threadUnlink rtun t info runq ts
                ((h.clutchBuckets info.clutchBucket).thrCount - 1) (h.thrCount - 1)).priCalculateFaults ctun
                info.clutchBucket ts = true :=
        Hierarchy.threadRemove_returns inv₁ (le_refl _) found (fun _ => home ▸ head)
      · exact .inl ⟨(some t, h'), by simp [Hierarchy.threadHighestRemove, selected, lookup, removed]⟩
      · -- the selection moved no priority, which is all the calculation reads of the root
        have unlinked := (Hierarchy.priCalculateFaults_setRoot (h.threadUnlink rtun t info runq ts
          ((h.clutchBuckets info.clutchBucket).thrCount - 1) (h.thrCount - 1)) same.2.1).symm.trans faults
        exact .inr ⟨t, info, runq, found, atRunq, unlinked⟩
    · -- no bound root bucket is runnable
      exact absurd runnable (by simp [Root.Runnable, inv.root_ok.bound_idle b])

end Hierarchy

section Reachable

variable {ctun : Tunables} {rtun : RootTunables} {now ts : UInt64} {h : Hierarchy}

/-- On every reachable hierarchy, `sched_clutch_thread_highest_remove` at a
later timestamp returns, unless the thread it takes leaves threads in its
clutch bucket and their priority calculation divides by zero or exceeds
`NRQS_MAX`. Where it returns, it returns THREAD_NULL exactly when no thread is
enqueued, and otherwise removes one enqueued thread and no other: one that
ranks first, by the key of its `sched_pri` and then its stamp, among the
threads of its clutch bucket, a clutch bucket whose `scb_priority` is the
highest among those of its bucket that hold a thread. -/
theorem hierarchyReachable_threadHighestRemove (online : 0 < rtun.onlineProcessorCount)
    (reach : HierarchyReachable ctun rtun now h) (later : now.toNat ≤ ts.toNat) (noWrap : NoWrap rtun ts) :
    (∀ res h', h.threadHighestRemove ctun rtun ts = some (res, h') →
      (res = none ↔ h.enqueued = ∅) ∧
        ∀ t ∈ res, ∃ info, h.threads t = some info ∧ h'.enqueued = h.enqueued \ {t} ∧
          (∀ u info', h.threads u = some info' → info'.clutchBucket = info.clutchBucket →
            h.runqRank u ≤ h.runqRank t) ∧
          ∀ u info', h.threads u = some info' →
            info'.clutchBucket % bucketSchedMax = info.clutchBucket % bucketSchedMax →
            h.root.clutchBucketPriority info'.clutchBucket ≤ h.root.clutchBucketPriority info.clutchBucket) ∧
      (h.threadHighestRemove ctun rtun ts = none →
        ∃ t info runq, h.threads t = some info ∧ h.threadRunqs info.clutchBucket = some runq ∧
          (h.threadUnlink rtun t info runq ts ((h.clutchBuckets info.clutchBucket).thrCount - 1)
            (h.thrCount - 1)).priCalculateFaults ctun info.clutchBucket ts = true) := by
  have inv := reach.inv online
  refine ⟨fun res h' removed => inv.threadHighestRemove_spec online later noWrap removed, fun faulted => ?_⟩
  exact (Hierarchy.threadHighestRemove_returns online inv later noWrap).resolve_left fun ⟨_, returned⟩ => by
    simp [faulted] at returned

/-- The sample hierarchy gives up its foreground thread first. -/
theorem hierarchyReachable_threadHighestRemove_sample :
    ∃ h', sampleHierarchy.threadHighestRemove tunables24MHz rootTunables24MHz 300 = some (some 10, h') ∧
      ∃ info, sampleHierarchy.threads 10 = some info ∧ h'.enqueued = sampleHierarchy.enqueued \ {10} := by
  have found : (sampleHierarchy.threadHighestRemove tunables24MHz rootTunables24MHz 300).map Prod.fst =
      some (some 10) := by decide
  obtain ⟨⟨res, h'⟩, removed, rfl⟩ := Option.map_eq_some_iff.mp found
  obtain ⟨-, taken⟩ := (hierarchyReachable_threadHighestRemove (by decide) sampleHierarchy_reachable (le_refl _)
    (rootTunables24MHz_noWrap (by decide))).1 _ _ removed
  obtain ⟨info, atThread, remaining, -, -⟩ := taken 10 rfl
  exact ⟨h', removed, info, atThread, remaining⟩

/-- On every reachable hierarchy, `sched_clutch_thread_insert` of a thread that
is not enqueued, at a later timestamp, returns, unless a count it increments is
at `UINT16_MAX` or the priority calculation of the thread's clutch bucket
divides by zero or exceeds `NRQS_MAX`. The hierarchy it leaves is reachable,
and enqueues the thread, with its fields, besides the threads enqueued before. -/
theorem hierarchyReachable_threadInsert (online : 0 < rtun.onlineProcessorCount)
    (reach : HierarchyReachable ctun rtun now h) (later : now.toNat ≤ ts.toNat) (noWrap : NoWrap rtun ts)
    {thread : Nat} (fresh : thread ∉ h.enqueued) (info : HierarchyThread) (tailq headq : Bool) :
    (∃ h' flag, h.threadInsert ctun rtun thread info tailq headq ts = some (h', flag) ∧
      HierarchyReachable ctun rtun ts h' ∧ h'.enqueued = insert thread h.enqueued ∧ h'.threads thread = some info) ∨
      (h.clutchBuckets info.clutchBucket).thrCount = 0xffff ∨ h.thrCount = 0xffff ∨
      (if (h.clutchBuckets info.clutchBucket).thrCount = 0 then
        (h.threadLink rtun thread info tailq ts ((h.clutchBuckets info.clutchBucket).thrCount + 1)
          (h.thrCount + 1)).runnablePriFaults ctun info.clutchBucket ts
      else (h.threadLink rtun thread info tailq ts ((h.clutchBuckets info.clutchBucket).thrCount + 1)
          (h.thrCount + 1)).priCalculateFaults ctun info.clutchBucket ts) = true := by
  have unqueued : h.threads thread = none := Option.not_isSome_iff_eq_none.mp fresh
  obtain ⟨⟨h', flag⟩, inserted⟩ | unreturned :
      (∃ res, h.threadInsert ctun rtun thread info tailq headq ts = some res) ∨ _ :=
    Hierarchy.threadInsert_returns (reach.inv online) later noWrap unqueued info tailq headq
  · obtain ⟨-, threads, -⟩ := Hierarchy.threadInsert_frame inserted
    have stepped : hierarchyStep ctun rtun h (.threadInsert thread info tailq headq ts) = some h' := by
      simp [hierarchyStep, inserted]
    exact .inl ⟨h', flag, inserted, reach.step stepped later noWrap, Hierarchy.enqueued_eq_insert threads,
      by simp [threads]⟩
  · exact .inr unreturned

/-- A third thread group's first foreground thread joins the sample hierarchy. -/
theorem hierarchyReachable_threadInsert_sample :
    ∃ h' flag, sampleHierarchy.threadInsert tunables24MHz rootTunables24MHz 12 ⟨⟨31, 31, false⟩, 3, .shareFg⟩ true
      false 400 = some (h', flag) ∧ h'.enqueued = insert 12 sampleHierarchy.enqueued := by
  have fresh : (12 : Nat) ∉ sampleHierarchy.enqueued := by
    show ¬(sampleHierarchy.threads 12).isSome = true
    decide
  rcases hierarchyReachable_threadInsert (by decide) sampleHierarchy_reachable
    (show (300 : UInt64).toNat ≤ (400 : UInt64).toNat by decide)
    (rootTunables24MHz_noWrap (show (400 : UInt64).toNat + 6000000 < 2 ^ 64 by decide)) fresh ⟨⟨31, 31, false⟩, 3, .shareFg⟩ true false with
    ⟨h', flag, inserted, -, grown, -⟩ | full | full | faults
  · exact ⟨h', flag, inserted, grown⟩
  · exact absurd full (by decide)
  · exact absurd full (by decide)
  · exact absurd faults (by decide)

end Reachable

end Xnu.Clutch
