import Xnu.Sched.ClutchThreadCorrect
import Xnu.Sched.ClutchCpuCorrect

namespace Xnu.Clutch

open Sched (RunQueue)

/-! Runs of the clutch hierarchy from `sched_clutch_root_init`. What the
clutch bucket and thread routines write of the threads and of `scr_priority`;
which root buckets are runnable given the enqueued threads; the invariant of
`Xnu.Sched.ClutchThreadCorrect` along every run; and from it what
`sched_clutch_root_pri_update`, `sched_clutch_thread_highest_remove` and the
global bucket load give on every reachable hierarchy. -/

section Frames

variable {ctun : Tunables} {rtun : RootTunables} {ts : UInt64} {h h' : Hierarchy} {x thread : Nat}
  {info : HierarchyThread}

theorem Hierarchy.sameThreads_setRoot (h : Hierarchy) (root : Root) (load : Nat → UInt32) :
    h.SameThreads { h with root := root, bucketLoad := load } :=
  ⟨rfl, rfl, rfl, rfl, rfl, rfl, fun _ => rfl, fun _ => rfl⟩

/-- The clutch bucket routines leave the threads alone and write `scr_priority`
only as `sched_clutch_root_pri_update` computes it. -/
theorem Hierarchy.bucketUpdate_frame {headq samepriRr flag : Bool}
    (updated : h.bucketUpdate ctun rtun x ts headq samepriRr = some (h', flag)) :
    h.SameThreads h' ∧ (h'.priority = h.priority ∨ rootPriUpdate h'.root = some h'.priority) := by
  unfold Hierarchy.bucketUpdate at updated
  obtain ⟨⟨h₁, newPri⟩, calculated, updated⟩ := Option.bind_eq_some_iff.mp updated
  obtain ⟨cb, rfl, count, prioq, -⟩ := Hierarchy.bucketPriCalculate_spec calculated
  obtain ⟨root, -, updated⟩ := Option.bind_eq_some_iff.mp updated
  have same := Hierarchy.sameThreads_update count prioq root h.priority h.bucketLoad
  dsimp only at updated
  split at updated
  · cases updated
    exact ⟨same, Or.inl rfl⟩
  · obtain ⟨priority, computed, updated⟩ := Option.map_eq_some_iff.mp updated
    cases updated
    exact ⟨same.setPriority priority, Or.inr computed⟩

theorem Hierarchy.bucketRunnable_frame {headq flag : Bool}
    (runnable : h.bucketRunnable ctun rtun x ts headq = some (h', flag)) :
    h.SameThreads h' ∧ rootPriUpdate h'.root = some h'.priority := by
  unfold Hierarchy.bucketRunnable at runnable
  obtain ⟨⟨h₁, pri⟩, calculated, runnable⟩ := Option.bind_eq_some_iff.mp runnable
  obtain ⟨cb, rfl, count, prioq, -⟩ := Hierarchy.bucketPriCalculate_spec calculated
  obtain ⟨root, -, runnable⟩ := Option.bind_eq_some_iff.mp runnable
  have inserted := Hierarchy.sameThreads_update count prioq root h.priority
    (Function.update h.bucketLoad (x % bucketSchedMax) (h.bucketLoad (x % bucketSchedMax) + 1))
  obtain ⟨timeshared, timeshare, finished⟩ := Option.bind_eq_some_iff.mp runnable
  obtain ⟨priority, computed, finished⟩ := Option.map_eq_some_iff.mp finished
  cases finished
  -- the timeshare update in between writes no thread either
  have shared : h.SameThreads timeshared := by
    split at timeshare
    · cases timeshare
      exact inserted
    · obtain ⟨⟨h₂, flag'⟩, updated, rfl⟩ := Option.map_eq_some_iff.mp timeshare
      exact inserted.trans (Hierarchy.bucketUpdate_frame updated).1
  exact ⟨shared.setPriority priority, computed⟩

theorem Hierarchy.bucketEmpty_frame (emptied : h.bucketEmpty ctun x ts = some h') :
    h.SameThreads h' ∧ rootPriUpdate h'.root = some h'.priority := by
  unfold Hierarchy.bucketEmpty at emptied
  obtain ⟨root, -, emptied⟩ := Option.bind_eq_some_iff.mp emptied
  obtain ⟨⟨h₂, pri⟩, calculated, emptied⟩ := Option.bind_eq_some_iff.mp emptied
  obtain ⟨cb, rfl, count, prioq, -⟩ := Hierarchy.bucketPriCalculate_spec calculated
  obtain ⟨priority, computed, rfl⟩ := Option.map_eq_some_iff.mp emptied
  exact ⟨(Hierarchy.sameThreads_setRoot h root _).trans (Hierarchy.sameThreads_update count prioq _ priority _),
    computed⟩

/-- `sched_clutch_thread_insert` enqueues `thread`, which was not enqueued; it
keeps `scr_priority` only where the clutch bucket already held a thread. -/
theorem Hierarchy.threadInsert_frame {tailq headq flag : Bool}
    (inserted : h.threadInsert ctun rtun thread info tailq headq ts = some (h', flag)) :
    h.threads thread = none ∧ h'.threads = Function.update h.threads thread (some info) ∧
      ((h.clutchBuckets info.clutchBucket).thrCount ≠ 0 ∧ h'.priority = h.priority ∨
        rootPriUpdate h'.root = some h'.priority) := by
  unfold Hierarchy.threadInsert at inserted
  split at inserted
  · cases inserted
  · rename_i enqueued
    obtain ⟨scbCount, -, inserted⟩ := Option.bind_eq_some_iff.mp inserted
    obtain ⟨rootCount, -, inserted⟩ := Option.bind_eq_some_iff.mp inserted
    refine ⟨Option.not_isSome_iff_eq_none.mp enqueued, ?_⟩
    split at inserted
    · obtain ⟨same, computed⟩ := Hierarchy.bucketRunnable_frame inserted
      exact ⟨same.threads, Or.inr computed⟩
    · rename_i busy
      obtain ⟨same, kept | computed⟩ := Hierarchy.bucketUpdate_frame inserted
      · exact ⟨same.threads, Or.inl ⟨busy, kept⟩⟩
      · exact ⟨same.threads, Or.inr computed⟩

/-- `sched_clutch_thread_remove` dequeues `thread`, which was enqueued; it
keeps `scr_priority` only where the clutch bucket still holds a thread. -/
theorem Hierarchy.threadRemove_frame {headq samepriRr : Bool}
    (removed : h.threadRemove ctun rtun thread ts headq samepriRr = some h') :
    ∃ info, h.threads thread = some info ∧ h'.threads = Function.update h.threads thread none ∧
      ((h'.clutchBuckets info.clutchBucket).thrCount ≠ 0 ∧ h'.priority = h.priority ∨
        rootPriUpdate h'.root = some h'.priority) := by
  unfold Hierarchy.threadRemove at removed
  obtain ⟨info, found, removed⟩ := Option.bind_eq_some_iff.mp removed
  obtain ⟨runq, -, removed⟩ := Option.bind_eq_some_iff.mp removed
  obtain ⟨rootCount, -, removed⟩ := Option.bind_eq_some_iff.mp removed
  obtain ⟨scbCount, -, removed⟩ := Option.bind_eq_some_iff.mp removed
  refine ⟨info, found, ?_⟩
  split at removed
  · obtain ⟨same, computed⟩ := Hierarchy.bucketEmpty_frame removed
    exact ⟨same.threads, Or.inr computed⟩
  · rename_i busy
    obtain ⟨⟨h'', flag⟩, updated, rfl⟩ := Option.map_eq_some_iff.mp removed
    obtain ⟨same, kept | computed⟩ := Hierarchy.bucketUpdate_frame updated
    · refine ⟨same.threads, Or.inl ⟨?_, kept⟩⟩
      rw [same.bucketThrCount]
      simpa [Hierarchy.threadUnlink] using busy
    · exact ⟨same.threads, Or.inr computed⟩

end Frames

section Occupancy

variable {rtun : RootTunables} {now : UInt64} {h : Hierarchy}

/-- A clutch bucket counts threads exactly when it holds one. -/
theorem ThreadsOk.thrCount_ne_zero_iff {x : Nat} (ok : ThreadsOk h x) :
    (h.clutchBuckets x).thrCount ≠ 0 ↔ ∃ t, h.Holds x t := by
  have count := ok.thr_count
  constructor
  · intro held
    have nonempty : Heap.membersOf (h.threadRunqs x) ≠ [] := fun empty => held (by
      apply UInt16.toNat_inj.mp
      simp [count, empty])
    obtain ⟨t, member⟩ := List.exists_mem_of_ne_nil _ nonempty
    exact ⟨t, (ok.members_iff t).mp member⟩
  · rintro ⟨t, holds⟩ idle
    have member := (ok.members_iff t).mpr holds
    rw [idle, UInt16.toNat_zero] at count
    exact List.ne_nil_of_mem member (List.eq_nil_of_length_eq_zero count.symm)

theorem Hierarchy.mem_enqueued {t x : Nat} (holds : h.Holds x t) : t ∈ h.enqueued := by
  obtain ⟨info, found, -⟩ := holds
  simp [Hierarchy.enqueued, found]

/-- A clutch bucket at some level of unbound root bucket `b` is of bucket `b`,
holds a thread, and sits at its own priority. -/
theorem HierarchyInv.queued_of_mem (inv : HierarchyInv rtun now h) {b p x : Nat}
    (member : x ∈ (h.root.unbound.buckets b).runq.queues p) :
    x % bucketSchedMax = b ∧ (h.clutchBuckets x).thrCount ≠ 0 ∧ p = (h.root.clutchBucketPriority x).toNat := by
  have home := inv.root_ok.levels.bucket b p x member
  subst home
  have held : (h.clutchBuckets x).thrCount ≠ 0 := fun idle => (inv.link_ok x).unqueued idle p member
  exact ⟨rfl, held, (((inv.link_ok x).queued held).1 p).mp member⟩

/-- Unbound root bucket `b` is runnable exactly when it is the bucket of an
enqueued thread's clutch bucket. -/
theorem HierarchyInv.runnable_iff (inv : HierarchyInv rtun now h) (b : Nat) :
    h.root.Runnable ⟨false, b⟩ ↔ ∃ t info, h.threads t = some info ∧ info.clutchBucket % bucketSchedMax = b := by
  have bucketOk := (inv.root_ok.root false).bucket_ok b
  rw [Root.Runnable, bucketOk.runnable_iff]
  constructor
  · rintro ⟨-, held⟩
    -- some level holds a clutch bucket, and that clutch bucket a thread
    obtain ⟨p, nonempty⟩ : ∃ p, (h.root.unbound.buckets b).runq.queues p ≠ [] := by
      by_contra empty
      exact held (bucketOk.runq_ok.count_eq_zero_iff.mpr fun p => by_contra fun nonempty => empty ⟨p, nonempty⟩)
    obtain ⟨x, member⟩ := List.exists_mem_of_ne_nil _ nonempty
    obtain ⟨home, busy, -⟩ := inv.queued_of_mem member
    obtain ⟨t, info, found, inX⟩ := ((inv.threads_inv.threads_ok x).thrCount_ne_zero_iff).mp busy
    exact ⟨t, info, found, inX ▸ home⟩
  · rintro ⟨t, info, found, rfl⟩
    have busy := ((inv.threads_inv.threads_ok info.clutchBucket).thrCount_ne_zero_iff).mpr ⟨t, info, found, rfl⟩
    have queued := (((inv.link_ok _).queued busy).1 _).mpr rfl
    exact ⟨clutchBucket_mod_lt _, count_ne_zero_of_mem bucketOk.runq_ok queued⟩

/-- No thread is enqueued exactly when no root bucket is runnable. -/
theorem HierarchyInv.enqueued_eq_empty_iff (inv : HierarchyInv rtun now h) :
    h.enqueued = ∅ ↔ ∀ rb : RootBucketRef, ¬h.root.Runnable rb := by
  constructor
  · rintro empty ⟨bound, b⟩ runnable
    cases bound
    · obtain ⟨t, info, found, -⟩ := (inv.runnable_iff b).mp runnable
      have member : t ∈ h.enqueued := by simp [Hierarchy.enqueued, found]
      rw [empty] at member
      exact member
    · exact absurd runnable (by simp [Root.Runnable, inv.root_ok.bound_idle b])
  · intro idle
    refine Set.eq_empty_of_forall_notMem fun t enqueued => ?_
    obtain ⟨info, found⟩ := Option.isSome_iff_exists.mp enqueued
    exact idle ⟨false, _⟩ ((inv.runnable_iff _).mpr ⟨t, info, found, rfl⟩)

end Occupancy

section Selection

variable {ctun : Tunables} {rtun : RootTunables} {now ts : UInt64} {h h' : Hierarchy} {r' : Root}

/-- Between two roots that keep the invariant, the same run queues mark the
same root buckets runnable. -/
theorem Root.SameQueues.runnableBitmap {r : Root} (inv : RootInv rtun now r) (inv' : RootInv rtun ts r')
    (same : r.SameQueues r') (bound : Bool) (b : Nat) :
    (r'.side bound).runnableBitmap b = (r.side bound).runnableBitmap b := by
  apply Bool.eq_iff_iff.mpr
  rw [((inv' bound).bucket_ok b).runnable_iff, ((inv bound).bucket_ok b).runnable_iff, same.1 bound b]

/-- A selection of the root, which moves no run queue, keeps the invariant. -/
theorem HierarchyInv.setRoot (inv : HierarchyInv rtun now h) (rootInv : RootInv rtun ts r')
    (same : h.root.SameQueues r') : HierarchyInv rtun ts { h with root := r' } := by
  have rootOk := inv.root_ok
  have runq : ∀ b, (r'.unbound.buckets b).runq = (h.root.unbound.buckets b).runq := same.1 false
  refine ⟨⟨rootInv, fun b => ?_, ⟨fun b p x => ?_, fun b p => ?_⟩, fun b small => ?_⟩,
    inv.threads_inv.same ⟨rfl, rfl, rfl, rfl, rfl, rfl, fun _ => rfl, fun _ => rfl⟩, fun x => ?_⟩
  · simpa using (same.runnableBitmap rootOk.root rootInv true b).trans (rootOk.bound_idle b)
  · simpa [runq] using rootOk.levels.bucket b p x
  · simpa [runq] using rootOk.levels.nodup b p
  · simpa [runq] using rootOk.load b small
  · exact (inv.link_ok x).frame (fun p => by simp [runq]) (congrFun same.2.1 x) (congrFun same.2.2 x)

/-- `sched_clutch_thread_highest_remove` on a hierarchy that keeps the
invariant: the selection moves no run queue and keeps the root invariant; it
finds no root bucket exactly when none is runnable, and otherwise an unbound
runnable one, where `sched_clutch_thread_unbound_lookup` finds the thread that
`sched_clutch_thread_remove` then removes. -/
theorem Hierarchy.threadHighestRemove_cases (online : 0 < rtun.onlineProcessorCount) (inv : HierarchyInv rtun now h)
    (later : now.toNat ≤ ts.toNat) (noWrap : NoWrap rtun ts) {res : Option Nat}
    (removed : h.threadHighestRemove ctun rtun ts = some (res, h')) :
    ∃ r₁, RootInv rtun ts r₁ ∧ h.root.SameQueues r₁ ∧
      ((res = none ∧ h' = { h with root := r₁ } ∧ ∀ rb, ¬h.root.Runnable rb) ∨
        ∃ b t, res = some t ∧ h.root.Runnable ⟨false, b⟩ ∧
          ({ h with root := r₁ } : Hierarchy).threadUnboundLookup (r₁.unbound.buckets b) = some t ∧
          ({ h with root := r₁ } : Hierarchy).threadRemove ctun rtun t ts false true = some h') := by
  unfold Hierarchy.threadHighestRemove at removed
  obtain ⟨⟨picked, r₁⟩, found, removed⟩ := Option.bind_eq_some_iff.mp removed
  obtain ⟨picked₀, r₀, selected, rootInv, pickedOk⟩ :=
    rootHighestRootBucket_spec online noWrap (inv.root_ok.root.mono later) .all h.root.pending_lt_rootSelectFuel
  rw [found, Option.some.injEq, Prod.mk.injEq] at selected
  obtain ⟨rfl, rfl⟩ := selected
  refine ⟨r₁, rootInv, rootHighestRootBucket_sameQueues found, ?_⟩
  dsimp only at removed
  split at removed
  · -- THREAD_NULL: nothing is runnable
    cases removed
    exact Or.inl ⟨rfl, rfl, fun rb => pickedOk.1.mp rfl rb rfl⟩
  · rename_i rb
    obtain ⟨-, runnable⟩ := pickedOk.2 rb rfl
    obtain ⟨bound, b⟩ := rb
    cases bound
    · obtain ⟨thread, lookup, removed⟩ := Option.bind_eq_some_iff.mp removed
      obtain ⟨h'', taken, same⟩ := Option.map_eq_some_iff.mp removed
      cases same
      exact Or.inr ⟨b, thread, rfl, runnable, lookup, taken⟩
    · -- no bound root bucket is runnable
      exact absurd runnable (by simp [Root.Runnable, inv.root_ok.bound_idle b])

/-- `sched_clutch_thread_highest_remove` keeps the invariant. -/
theorem Hierarchy.threadHighestRemove_inv (online : 0 < rtun.onlineProcessorCount) (inv : HierarchyInv rtun now h)
    (later : now.toNat ≤ ts.toNat) (noWrap : NoWrap rtun ts) {res : Option Nat}
    (removed : h.threadHighestRemove ctun rtun ts = some (res, h')) : HierarchyInv rtun ts h' := by
  obtain ⟨r₁, rootInv, same, ⟨-, rfl, -⟩ | ⟨b, t, -, -, -, taken⟩⟩ :=
    Hierarchy.threadHighestRemove_cases online inv later noWrap removed
  · exact inv.setRoot rootInv same
  · exact Hierarchy.threadRemove_inv (inv.setRoot rootInv same) (le_refl _) taken

end Selection

section Accounting

variable {rtun : RootTunables} {now : UInt64} {h : Hierarchy}

/-- An accounting call on a group writes neither a thread, a count, nor the
root, so it keeps the invariant. -/
theorem HierarchyInv.groupUpdate (inv : HierarchyInv rtun now h) (x : Nat) (f : BucketGroup → BucketGroup) :
    HierarchyInv rtun now (h.groupUpdate x f) := by
  have same : h.SameThreads (h.groupUpdate x f) :=
    Hierarchy.sameThreads_update (h := h) (x := x) (by rfl) (by rfl) h.root h.priority h.bucketLoad
  refine ⟨⟨inv.root_ok.root, inv.root_ok.bound_idle, inv.root_ok.levels, inv.root_ok.load⟩, inv.threads_inv.same same,
    fun y => ?_⟩
  exact (inv.link_ok y).congr (same.bucketThrCount y) (same.bucketPrioq y)

end Accounting

section Run

variable {ctun : Tunables} {rtun : RootTunables}

/-- `sched_clutch_root_init` and the initial clutch buckets: no thread, no
clutch bucket queued, every count zero. -/
theorem hierarchyInit_inv (tgPriority : Nat → TgPriority) : HierarchyInv rtun 0 (hierarchyInit ctun rtun tgPriority) := by
  have nobody : (hierarchyInit ctun rtun tgPriority).enqueued = ∅ := by simp [Hierarchy.enqueued, hierarchyInit]
  refine ⟨⟨rootInit_inv, fun _ => rfl, ⟨fun b p x member => ?_, fun b p => ?_⟩, fun b _ => ?_⟩, ⟨fun x => ?_, ?_, ?_, ?_⟩,
    fun x => ⟨fun held => absurd rfl held, fun _ p => ?_⟩⟩
  · simp [hierarchyInit, rootInit, rootSideInit, rootBucketInit, Sched.runQueueInit] at member
  · simp [hierarchyInit, rootInit, rootSideInit, rootBucketInit, Sched.runQueueInit]
  · simp [hierarchyInit, rootInit, rootSideInit, rootBucketInit, Sched.runQueueInit]
  · refine ⟨fun t => ?_, by simp [hierarchyInit], fun _ none => (by cases none), by simp [hierarchyInit],
      by simp [hierarchyInit]⟩
    simp [Hierarchy.Holds, hierarchyInit]
  · simp [nobody]
  · rw [nobody, Set.ncard_empty]
    rfl
  · simp [Hierarchy.urgentThreads, hierarchyInit]
  · simp [hierarchyInit, rootInit, rootSideInit, rootBucketInit, Sched.runQueueInit]

theorem HierarchyInv.mono {now ts : UInt64} {h : Hierarchy} (inv : HierarchyInv rtun now h)
    (later : now.toNat ≤ ts.toNat) : HierarchyInv rtun ts h :=
  ⟨⟨inv.root_ok.root.mono later, inv.root_ok.bound_idle, inv.root_ok.levels, inv.root_ok.load⟩, inv.threads_inv,
    inv.link_ok⟩

/-- Each call into the hierarchy, at a timestamp no earlier than `now` where no
deadline wraps, keeps the invariant. -/
theorem hierarchyStep_inv (online : 0 < rtun.onlineProcessorCount) {now : UInt64} {h h' : Hierarchy}
    (inv : HierarchyInv rtun now h) {e : HierarchyEvent} (later : now.toNat ≤ e.timestamp.toNat)
    (noWrap : NoWrap rtun e.timestamp) (stepped : hierarchyStep ctun rtun h e = some h') :
    HierarchyInv rtun e.timestamp h' := by
  cases e with
  | threadInsert thread info tailq headq timestamp =>
    obtain ⟨⟨h'', flag⟩, inserted, rfl⟩ := Option.map_eq_some_iff.mp stepped
    exact Hierarchy.threadInsert_inv inv later noWrap inserted
  | threadRemove thread headq samepriRr timestamp => exact Hierarchy.threadRemove_inv inv later stepped
  | threadHighestRemove timestamp =>
    obtain ⟨⟨res, h''⟩, removed, rfl⟩ := Option.map_eq_some_iff.mp stepped
    exact Hierarchy.threadHighestRemove_inv online inv later noWrap removed
  | cpuUsageUpdate x delta timestamp =>
    cases stepped
    exact (inv.groupUpdate x _).mono later
  | runBucketIncr x timestamp =>
    cases stepped
    exact (inv.groupUpdate x _).mono later
  | runBucketDecr x timestamp =>
    cases stepped
    exact (inv.groupUpdate x _).mono later

/-- The rule for runs: a relation between the start and the end of a run that
holds of the empty run, and that one call in front keeps from a hierarchy that
keeps the invariant, holds of every run whose timestamps never go back and
where no deadline wraps; the invariant holds at its end, up to any timestamp
no earlier than its own. -/
theorem hierarchyRun_induction (online : 0 < rtun.onlineProcessorCount)
    (Q : Hierarchy → List HierarchyEvent → Hierarchy → Prop) (nil : ∀ h, Q h [] h)
    (cons : ∀ {now : UInt64} {h h' h'' : Hierarchy} {e : HierarchyEvent} {events : List HierarchyEvent},
      HierarchyInv rtun now h → now.toNat ≤ e.timestamp.toNat → NoWrap rtun e.timestamp →
      hierarchyStep ctun rtun h e = some h' → Q h' events h'' → Q h (e :: events) h'')
    {ts : UInt64} :
    ∀ {events : List HierarchyEvent} {now : UInt64} {h h' : Hierarchy}, HierarchyInv rtun now h →
      now.toNat ≤ ts.toNat →
      (∀ e ∈ events, now.toNat ≤ e.timestamp.toNat ∧ e.timestamp.toNat ≤ ts.toNat ∧ NoWrap rtun e.timestamp) →
      events.Pairwise (fun e e' => e.timestamp.toNat ≤ e'.timestamp.toNat) →
      hierarchyRun ctun rtun h events = some h' → HierarchyInv rtun ts h' ∧ Q h events h'
  | [], _, _, _, inv, later, _, _, ran => by
    cases ran
    exact ⟨inv.mono later, nil _⟩
  | e :: events, _, _, _, inv, _, timed, ordered, ran => by
    obtain ⟨after, upTo, noWrap⟩ := timed e List.mem_cons_self
    obtain ⟨stepped, stepOk, rest⟩ := Option.bind_eq_some_iff.mp ran
    have ordered' := List.pairwise_cons.mp ordered
    -- the rest of the run starts at the call's own timestamp
    have timed' : ∀ e' ∈ events,
        e.timestamp.toNat ≤ e'.timestamp.toNat ∧ e'.timestamp.toNat ≤ ts.toNat ∧ NoWrap rtun e'.timestamp :=
      fun e' member => ⟨ordered'.1 e' member, (timed e' (List.mem_cons_of_mem e member)).2⟩
    obtain ⟨inv', holds⟩ := hierarchyRun_induction online Q nil cons
      (hierarchyStep_inv online inv after noWrap stepOk) upTo timed' ordered'.2 rest
    exact ⟨inv', cons inv after noWrap stepOk holds⟩

variable (ctun rtun) in
/-- What a run from `sched_clutch_root_init` can leave by `now`: the calls'
timestamps never go back, none is past `now`, and no deadline wraps at any. -/
def HierarchyReachable (now : UInt64) (h : Hierarchy) : Prop :=
  ∃ (tgPriority : Nat → TgPriority) (events : List HierarchyEvent),
    hierarchyRun ctun rtun (hierarchyInit ctun rtun tgPriority) events = some h ∧
      events.Pairwise (fun e e' => e.timestamp.toNat ≤ e'.timestamp.toNat) ∧
      ∀ e ∈ events, e.timestamp.toNat ≤ now.toNat ∧ NoWrap rtun e.timestamp

/-- What each call keeps from `sched_clutch_root_init` on holds on every
reachable hierarchy, together with the invariant. -/
theorem HierarchyReachable.preserves (online : 0 < rtun.onlineProcessorCount) (P : Hierarchy → Prop)
    (init : ∀ tgPriority, P (hierarchyInit ctun rtun tgPriority))
    (step : ∀ {now : UInt64} {h h' : Hierarchy} {e : HierarchyEvent}, HierarchyInv rtun now h →
      now.toNat ≤ e.timestamp.toNat → NoWrap rtun e.timestamp → P h → hierarchyStep ctun rtun h e = some h' → P h')
    {now : UInt64} {h : Hierarchy} (reach : HierarchyReachable ctun rtun now h) : HierarchyInv rtun now h ∧ P h := by
  obtain ⟨tgPriority, events, run, ordered, timed⟩ := reach
  obtain ⟨inv, holds⟩ := hierarchyRun_induction online (fun h _ h' => P h → P h') (fun _ => id)
    (fun inv later noWrap stepped rest holds => rest (step inv later noWrap holds stepped))
    (hierarchyInit_inv tgPriority) (Nat.zero_le _) (fun e member => ⟨Nat.zero_le _, timed e member⟩) ordered run
  exact ⟨inv, holds (init tgPriority)⟩

theorem HierarchyReachable.inv (online : 0 < rtun.onlineProcessorCount) {now : UInt64} {h : Hierarchy}
    (reach : HierarchyReachable ctun rtun now h) : HierarchyInv rtun now h :=
  (reach.preserves online (fun _ => True) (fun _ => trivial) fun _ _ _ _ _ => trivial).1

theorem hierarchyRun_append (h : Hierarchy) (events events' : List HierarchyEvent) :
    hierarchyRun ctun rtun h (events ++ events') =
      (hierarchyRun ctun rtun h events).bind fun h => hierarchyRun ctun rtun h events' := by
  induction events generalizing h with
  | nil => rfl
  | cons e events ih => simp [hierarchyRun, ih, Option.bind_assoc]

/-- A call at a timestamp no earlier than the run's, with no deadline wrap,
extends the run: what it leaves of a reachable hierarchy is reachable. -/
theorem HierarchyReachable.step {now : UInt64} {h h' : Hierarchy} {e : HierarchyEvent}
    (reach : HierarchyReachable ctun rtun now h) (stepped : hierarchyStep ctun rtun h e = some h')
    (later : now.toNat ≤ e.timestamp.toNat) (noWrap : NoWrap rtun e.timestamp) :
    HierarchyReachable ctun rtun e.timestamp h' := by
  obtain ⟨tgPriority, events, run, ordered, timed⟩ := reach
  refine ⟨tgPriority, events ++ [e], by simp [hierarchyRun_append, run, hierarchyRun, stepped], ?_, fun e' member => ?_⟩
  · refine List.pairwise_append.mpr ⟨ordered, List.pairwise_singleton _ _, fun e' earlier e'' last => ?_⟩
    rw [List.mem_singleton.mp last]
    exact (timed e' earlier).1.trans later
  · rcases List.mem_append.mp member with earlier | last
    · exact ⟨(timed e' earlier).1.trans later, (timed e' earlier).2⟩
    · rw [List.mem_singleton.mp last]
      exact ⟨le_refl _, noWrap⟩

/-- A foreground thread of one thread group and an in-bucket thread of another
made runnable, with the CPU usage of the first group updated in between. -/
def sampleHierarchyEvents : List HierarchyEvent :=
  [.threadInsert 10 ⟨⟨31, 31, false⟩, 1, .shareFg⟩ true false 100, .cpuUsageUpdate 7 2400 150,
    .threadInsert 11 ⟨⟨47, 47, false⟩, 2, .shareIn⟩ true false 200]

/-- The hierarchy the sample run leaves, on the 24 MHz tunables. -/
def sampleHierarchy : Hierarchy :=
  (hierarchyRun tunables24MHz rootTunables24MHz (hierarchyInit tunables24MHz rootTunables24MHz fun _ => .med)
    sampleHierarchyEvents).getD (hierarchyInit tunables24MHz rootTunables24MHz fun _ => .med)

theorem sampleHierarchy_run :
    hierarchyRun tunables24MHz rootTunables24MHz (hierarchyInit tunables24MHz rootTunables24MHz fun _ => .med)
      sampleHierarchyEvents = some sampleHierarchy := by
  have ran : (hierarchyRun tunables24MHz rootTunables24MHz (hierarchyInit tunables24MHz rootTunables24MHz fun _ => .med)
      sampleHierarchyEvents).isSome = true := by decide
  obtain ⟨h, found⟩ := Option.isSome_iff_exists.mp ran
  simp [sampleHierarchy, found]

theorem sampleHierarchyEvents_timed :
    ∀ e ∈ sampleHierarchyEvents, e.timestamp.toNat ≤ (300 : UInt64).toNat ∧ NoWrap rootTunables24MHz e.timestamp := by
  intro e member
  simp only [sampleHierarchyEvents, List.mem_cons, List.not_mem_nil, or_false] at member
  rcases member with rfl | rfl | rfl <;> exact ⟨by decide, rootTunables24MHz_noWrap (by decide)⟩

theorem sampleHierarchy_reachable : HierarchyReachable tunables24MHz rootTunables24MHz 300 sampleHierarchy :=
  ⟨fun _ => .med, sampleHierarchyEvents, sampleHierarchy_run, by decide, sampleHierarchyEvents_timed⟩

end Run

section Priority

variable {ctun : Tunables} {rtun : RootTunables} {now ts : UInt64} {r : Root} {h h' : Hierarchy}

theorem int16_toInt_max (a b : Int16) : (max a b).toInt = max a.toInt b.toInt := by
  show (if a ≤ b then b else a).toInt = _
  split <;> rename_i le <;> rw [Int16.le_iff_toInt_le] at le <;> omega

theorem int16_toInt_neg_one : (-1 : Int16).toInt = -1 := by decide

/-- Below `nbits`, `bitmap_lsb_next` finds the lowest bit set above `prev`, and
`-1` where there is none. -/
theorem bitmapLsbNext_spec (map : Nat → Bool) (nbits prev : Nat) :
    (bitmapLsbNext map nbits prev = -1 ∧ ∀ j, prev < j → j < nbits → map j = false) ∨
      ∃ i : Nat, bitmapLsbNext map nbits prev = i ∧ prev < i ∧ i < nbits ∧ map i = true := by
  unfold bitmapLsbNext
  split
  · rename_i i found
    obtain ⟨low, high, set, -⟩ := leastFrom_eq_some.mp found
    exact Or.inr ⟨i, rfl, by omega, by omega, set⟩
  · rename_i found
    exact Or.inl ⟨rfl, fun j low high => leastFrom_eq_none.mp found j (by omega) (by omega)⟩

/-- The root bucket `sched_clutch_root_pri_update` reads of a kind with a
runnable one: the above-UI one where the above-UI rule picks it, else the first
runnable one after it, which the rule leaves there. -/
theorem runnable_of_pick {map : Nat → Bool} (someRunnable : ∃ b < bucketSchedMax, map b = true) (aboveui : Bool)
    (picked : aboveui = true → map bucketFixpri = true)
    (passed : aboveui = false → map bucketFixpri = true → map bucketShareFg = true) :
    ∃ index : Nat, (if aboveui then (bucketFixpri : Int) else bitmapLsbNext map bucketSchedMax bucketFixpri) = index ∧
      map index = true := by
  cases aboveui
  · obtain ⟨b, small, set⟩ := someRunnable
    rcases bitmapLsbNext_spec map bucketSchedMax bucketFixpri with ⟨-, clear⟩ | ⟨i, found, -, -, set'⟩
    · -- nothing after the above-UI bucket, which then cannot be passed over
      unfold bucketFixpri at clear passed
      unfold bucketSchedMax at small clear
      unfold bucketShareFg at passed
      rcases Nat.eq_zero_or_pos b with rfl | positive
      · simpa [clear 1 (by omega) (by omega)] using passed rfl set
      · simp [clear b positive small] at set
    · exact ⟨i, by simp [found], set'⟩
  · exact ⟨bucketFixpri, rfl, picked rfl⟩

theorem exists_runnable_of_lsbFirst {map : Nat → Bool} (held : ¬bitmapLsbFirst map bucketSchedMax = -1) :
    ∃ b < bucketSchedMax, map b = true := by
  rcases bitmapLsbFirst_spec map bucketSchedMax with ⟨none, -⟩ | ⟨i, -, small, set, -⟩
  · exact absurd none held
  · exact ⟨i, small, set⟩

/-- `root_bound_pri` of `sched_clutch_root_pri_update` passes its assert on a
root that keeps the invariant: NOPRI when no bound root bucket is runnable, and
otherwise the `highq` of one that is. -/
theorem rootBoundPri_spec (inv : RootInv rtun now r) :
    ∃ p, rootBoundPri r = some p ∧ (p.toInt = -1 ↔ ∀ b, ¬r.Runnable ⟨true, b⟩) ∧ -1 ≤ p.toInt := by
  have lsb := bitmapLsbFirst_runnable inv true
  unfold rootBoundPri
  split
  · rename_i none
    exact ⟨-1, rfl, iff_of_true int16_toInt_neg_one (lsb.mp none), by rw [int16_toInt_neg_one]⟩
  · rename_i held
    obtain ⟨picked, passed⟩ := rootBoundSelectAboveui_spec inv
    obtain ⟨index, chosen, runnable⟩ := runnable_of_pick (exists_runnable_of_lsbFirst held) _ picked passed
    dsimp only
    rw [chosen, if_neg (by omega), Int.toNat_natCast]
    -- a runnable bound root bucket reads a level of its run queue
    have ok := (inv true).bucket_ok index
    obtain ⟨q, highq, nonempty⟩ := ok.runq_ok.highq_held (ok.runnable_iff.mp runnable).2
    have small := ok.runq_ok.lt_of_ne_nil nonempty
    simp only [runqLevels, if_true, nrqs] at small
    have level : (Int16.ofInt (r.bound.buckets index).runq.highq).toInt = q := by
      rw [Root.side_true] at highq
      rw [highq, Int16.toInt_ofInt_of_le (by omega) (by omega)]
    refine ⟨_, rfl, iff_of_false (by omega) fun idle => idle index runnable, by omega⟩

/-- `root_unbound_pri` of `sched_clutch_root_pri_update` passes its assert and
finds a clutch bucket on a root that keeps the invariant: NOPRI when no unbound
root bucket is runnable, and otherwise a highest base or promoted priority. -/
theorem rootUnboundPri_spec (inv : RootInv rtun now r) :
    ∃ p, rootUnboundPri r = some p ∧ (p.toInt = -1 ↔ ∀ b, ¬r.Runnable ⟨false, b⟩) ∧ -1 ≤ p.toInt := by
  have lsb := bitmapLsbFirst_runnable inv false
  unfold rootUnboundPri
  split
  · rename_i none
    exact ⟨-1, rfl, iff_of_true int16_toInt_neg_one (lsb.mp none), by rw [int16_toInt_neg_one]⟩
  · rename_i held
    obtain ⟨aboveui, select, picked, passed⟩ := rootUnboundSelectAboveui_spec inv
    obtain ⟨index, chosen, runnable⟩ := runnable_of_pick (exists_runnable_of_lsbFirst held) aboveui picked passed
    rw [select, Option.bind_some]
    dsimp only
    rw [chosen, if_neg (by omega), Int.toNat_natCast]
    have ok := (inv false).bucket_ok index
    obtain ⟨cb, highest⟩ := rootBucketHighestClutchBucket_isSome ok.runq_ok (ok.runnable_iff.mp runnable).2
    rw [Root.side_false] at highest
    rw [highest, Option.map_some]
    have small := (r.clutchBucketMaxSchedPri cb).toNat_lt
    have level : (Int16.ofNat (r.clutchBucketMaxSchedPri cb).toNat).toInt = (r.clutchBucketMaxSchedPri cb).toNat := by
      rw [Int16.toInt_ofNat_of_lt (by omega)]
    refine ⟨_, rfl, iff_of_false (by omega) fun idle => idle index runnable, by omega⟩

/-- `sched_clutch_root_pri_update` hits none of its asserts on a root that
keeps the invariant, and sets `scr_priority` to NOPRI exactly when no root
bucket is runnable. -/
theorem rootPriUpdate_spec (inv : RootInv rtun now r) :
    ∃ p, rootPriUpdate r = some p ∧ (p = -1 ↔ ∀ rb, ¬r.Runnable rb) := by
  obtain ⟨boundPri, boundFound, boundIdle, boundLow⟩ := rootBoundPri_spec inv
  obtain ⟨unboundPri, unboundFound, unboundIdle, unboundLow⟩ := rootUnboundPri_spec inv
  refine ⟨max boundPri unboundPri, by simp [rootPriUpdate, boundFound, unboundFound], ?_⟩
  rw [← Int16.toInt_inj, int16_toInt_max, int16_toInt_neg_one]
  constructor
  · rintro top ⟨bound, b⟩
    cases bound
    · exact unboundIdle.mp (by omega) b
    · exact boundIdle.mp (by omega) b
  · intro idle
    have bound := boundIdle.mpr fun b => idle _
    have unbound := unboundIdle.mpr fun b => idle _
    omega

/-- Where `sched_clutch_root_pri_update` computed `scr_priority`, it is NOPRI
exactly when no thread is enqueued. -/
theorem HierarchyInv.priority_eq_noPri_iff (inv : HierarchyInv rtun now h)
    (computed : rootPriUpdate h.root = some h.priority) : h.priority = -1 ↔ h.enqueued = ∅ := by
  obtain ⟨p, found, idle⟩ := rootPriUpdate_spec inv.root_ok.root
  rw [computed, Option.some.injEq] at found
  rw [found, idle, inv.enqueued_eq_empty_iff]

/-- On every reachable hierarchy, `sched_clutch_root_pri_update` hits none of
its asserts, and computes NOPRI exactly when no thread is enqueued. -/
theorem hierarchyReachable_rootPriUpdate (online : 0 < rtun.onlineProcessorCount)
    (reach : HierarchyReachable ctun rtun now h) :
    ∃ p, rootPriUpdate h.root = some p ∧ (p = -1 ↔ h.enqueued = ∅) := by
  have inv := reach.inv online
  obtain ⟨p, found, idle⟩ := rootPriUpdate_spec inv.root_ok.root
  exact ⟨p, found, idle.trans inv.enqueued_eq_empty_iff.symm⟩

theorem hierarchyReachable_rootPriUpdate_sample :
    ∃ p, rootPriUpdate sampleHierarchy.root = some p ∧ (p = -1 ↔ sampleHierarchy.enqueued = ∅) :=
  hierarchyReachable_rootPriUpdate (by decide) sampleHierarchy_reachable

theorem Hierarchy.enqueued_ne_empty {t : Nat} (enqueued : t ∈ h.enqueued) : h.enqueued ≠ ∅ :=
  (Set.nonempty_of_mem enqueued).ne_empty

variable {thread : Nat}

theorem Hierarchy.threadInsert_priority (inv : HierarchyInv rtun now h) (inv' : HierarchyInv rtun ts h')
    (nopri : h.priority = -1 ↔ h.enqueued = ∅) {info : HierarchyThread} {tailq headq flag : Bool}
    (inserted : h.threadInsert ctun rtun thread info tailq headq ts = some (h', flag)) :
    h'.priority = -1 ↔ h'.enqueued = ∅ := by
  obtain ⟨-, threads, ⟨held, kept⟩ | computed⟩ := Hierarchy.threadInsert_frame inserted
  · -- `scr_priority` is kept where the clutch bucket held a thread already
    obtain ⟨t, holds⟩ := (inv.threads_inv.threads_ok _).thrCount_ne_zero_iff.mp held
    have enqueued : thread ∈ h'.enqueued := by simp [Hierarchy.enqueued, threads]
    rw [kept, nopri]
    exact iff_of_false (Hierarchy.enqueued_ne_empty (Hierarchy.mem_enqueued holds))
      (Hierarchy.enqueued_ne_empty enqueued)
  · exact inv'.priority_eq_noPri_iff computed

theorem Hierarchy.threadRemove_priority (inv' : HierarchyInv rtun ts h')
    (nopri : h.priority = -1 ↔ h.enqueued = ∅) {headq samepriRr : Bool}
    (removed : h.threadRemove ctun rtun thread ts headq samepriRr = some h') :
    h'.priority = -1 ↔ h'.enqueued = ∅ := by
  obtain ⟨info, found, -, ⟨held, kept⟩ | computed⟩ := Hierarchy.threadRemove_frame removed
  · -- `scr_priority` is kept where the clutch bucket still holds a thread
    obtain ⟨t, holds⟩ := (inv'.threads_inv.threads_ok _).thrCount_ne_zero_iff.mp held
    have enqueued : thread ∈ h.enqueued := by simp [Hierarchy.enqueued, found]
    rw [kept, nopri]
    exact iff_of_false (Hierarchy.enqueued_ne_empty enqueued)
      (Hierarchy.enqueued_ne_empty (Hierarchy.mem_enqueued holds))
  · exact inv'.priority_eq_noPri_iff computed

/-- Each call keeps `scr_priority` NOPRI exactly while no thread is enqueued. -/
theorem hierarchyStep_priority (online : 0 < rtun.onlineProcessorCount) (inv : HierarchyInv rtun now h)
    {e : HierarchyEvent} (later : now.toNat ≤ e.timestamp.toNat) (noWrap : NoWrap rtun e.timestamp)
    (nopri : h.priority = -1 ↔ h.enqueued = ∅) (stepped : hierarchyStep ctun rtun h e = some h') :
    h'.priority = -1 ↔ h'.enqueued = ∅ := by
  have inv' := hierarchyStep_inv online inv later noWrap stepped
  cases e with
  | threadInsert thread info tailq headq timestamp =>
    obtain ⟨⟨h'', flag⟩, inserted, rfl⟩ := Option.map_eq_some_iff.mp stepped
    exact Hierarchy.threadInsert_priority inv inv' nopri inserted
  | threadRemove thread headq samepriRr timestamp => exact Hierarchy.threadRemove_priority inv' nopri stepped
  | threadHighestRemove timestamp =>
    obtain ⟨⟨res, h''⟩, removed, rfl⟩ := Option.map_eq_some_iff.mp stepped
    -- the selection moves neither `scr_priority` nor a thread
    obtain ⟨r₁, -, -, ⟨-, rfl, -⟩ | ⟨b, t, -, -, -, taken⟩⟩ :=
      Hierarchy.threadHighestRemove_cases online inv later noWrap removed
    · exact nopri
    · exact Hierarchy.threadRemove_priority (h := { h with root := r₁ }) inv' nopri taken
  | cpuUsageUpdate x delta timestamp =>
    cases stepped
    exact nopri
  | runBucketIncr x timestamp =>
    cases stepped
    exact nopri
  | runBucketDecr x timestamp =>
    cases stepped
    exact nopri

/-- On every reachable hierarchy, `scr_priority`, which
`sched_clutch_root_priority` reports, is NOPRI exactly when no thread is
enqueued. -/
theorem hierarchyReachable_priority_noPri (online : 0 < rtun.onlineProcessorCount) {now : UInt64} {h : Hierarchy}
    (reach : HierarchyReachable ctun rtun now h) : h.priority = -1 ↔ h.enqueued = ∅ :=
  (reach.preserves online (fun h => h.priority = -1 ↔ h.enqueued = ∅)
    (fun _ => iff_of_true rfl (by simp [Hierarchy.enqueued, hierarchyInit]))
    fun inv later noWrap nopri stepped => hierarchyStep_priority online inv later noWrap nopri stepped).2

theorem hierarchyReachable_priority_noPri_sample :
    sampleHierarchy.priority = -1 ↔ sampleHierarchy.enqueued = ∅ :=
  hierarchyReachable_priority_noPri (by decide) sampleHierarchy_reachable

end Priority

section HighestRemove

variable {ctun : Tunables} {rtun : RootTunables} {now ts : UInt64} {h h' : Hierarchy}

/-- `sched_clutch_root_bucket_highest_clutch_bucket` finds a clutch bucket at
level `highq`. -/
theorem rootBucketHighestClutchBucket_mem {levels : Nat} {urgent : Nat → Bool} {x : RootBucket} {cb : Nat}
    (ok : RunQueue.Ok levels urgent x.runq) (found : rootBucketHighestClutchBucket x = some cb) :
    ∃ p : Nat, x.runq.highq = p ∧ cb ∈ x.runq.queues p := by
  unfold rootBucketHighestClutchBucket clutchBucketRunqPeek at found
  split at found
  · cases found
  · rename_i held
    obtain ⟨p, highq, -⟩ := ok.highq_held held
    rw [if_pos (lt_of_le_of_ne ok.count_nonneg (Ne.symm held)), highq, Int.toNat_natCast] at found
    exact ⟨p, highq, List.mem_of_mem_head? found⟩

/-- `sched_clutch_thread_unbound_lookup` in unbound root bucket `b` finds the
first thread, in the stable order, of a clutch bucket of `b` whose priority is
the highest among those of `b` holding a thread. -/
theorem HierarchyInv.threadUnboundLookup_spec (inv : HierarchyInv rtun now h) {b t : Nat}
    (found : h.threadUnboundLookup (h.root.unbound.buckets b) = some t) :
    ∃ info, h.threads t = some info ∧ info.clutchBucket % bucketSchedMax = b ∧
      (∀ u info', h.threads u = some info' → info'.clutchBucket = info.clutchBucket → h.runqRank u ≤ h.runqRank t) ∧
      ∀ u info', h.threads u = some info' → info'.clutchBucket % bucketSchedMax = b →
        h.root.clutchBucketPriority info'.clutchBucket ≤ h.root.clutchBucketPriority info.clutchBucket := by
  unfold Hierarchy.threadUnboundLookup at found
  obtain ⟨x, highest, found⟩ := Option.bind_eq_some_iff.mp found
  obtain ⟨runq, atRunq, rfl⟩ := Option.map_eq_some_iff.mp found
  have runqOk := ((inv.root_ok.root false).bucket_ok b).runq_ok
  obtain ⟨p, highq, member⟩ := rootBucketHighestClutchBucket_mem runqOk highest
  obtain ⟨home, -, level⟩ := inv.queued_of_mem member
  have ok := inv.threads_inv.threads_ok x
  obtain ⟨info, atThread, inX⟩ := (ok.members_iff runq.root).mp (by simp [atRunq, Heap.members])
  subst inX
  refine ⟨info, atThread, home, fun u info' atU inSame => ?_, fun u info' atU inB => ?_⟩
  · -- the top of an ordered heap ranks above every member
    have memberU := (ok.members_iff u).mpr ⟨info', atU, inSame⟩
    rw [atRunq, Heap.membersOf_some] at memberU
    simpa [RankLe] using (ok.ordered runq atRunq).le_root u memberU
  · -- the other clutch bucket sits in the same root bucket at its own level, at most `highq`
    have busy := (inv.threads_inv.threads_ok _).thrCount_ne_zero_iff.mpr ⟨u, info', atU, rfl⟩
    have queued := (((inv.link_ok _).queued busy).1 _).mpr rfl
    rw [inB] at queued
    have below := runqOk.le_highq (List.ne_nil_of_mem queued)
    rw [highq] at below
    rw [UInt8.le_iff_toNat_le]
    omega

/-- On a hierarchy that keeps the invariant, `sched_clutch_thread_highest_remove`
at a later timestamp returns THREAD_NULL exactly when no thread is enqueued, and
otherwise removes one enqueued thread and no other: one that ranks first, by
the key of its `sched_pri` and then its stamp, among the threads of its clutch
bucket, a clutch bucket whose `scb_priority` is the highest among those of its
bucket that hold a thread. -/
theorem HierarchyInv.threadHighestRemove_spec (online : 0 < rtun.onlineProcessorCount)
    (inv : HierarchyInv rtun now h) (later : now.toNat ≤ ts.toNat) (noWrap : NoWrap rtun ts)
    {res : Option Nat} (removed : h.threadHighestRemove ctun rtun ts = some (res, h')) :
    (res = none ↔ h.enqueued = ∅) ∧
      ∀ t ∈ res, ∃ info, h.threads t = some info ∧ h'.enqueued = h.enqueued \ {t} ∧
        (∀ u info', h.threads u = some info' → info'.clutchBucket = info.clutchBucket → h.runqRank u ≤ h.runqRank t) ∧
        ∀ u info', h.threads u = some info' →
          info'.clutchBucket % bucketSchedMax = info.clutchBucket % bucketSchedMax →
          h.root.clutchBucketPriority info'.clutchBucket ≤ h.root.clutchBucketPriority info.clutchBucket := by
  obtain ⟨r₁, rootInv, same, ⟨rfl, -, idle⟩ | ⟨b, t, rfl, -, lookup, taken⟩⟩ :=
    Hierarchy.threadHighestRemove_cases online inv later noWrap removed
  · exact ⟨iff_of_true rfl (inv.enqueued_eq_empty_iff.mpr idle), fun t member => absurd member (Option.not_mem_none t)⟩
  · obtain ⟨info, found, home, first, highest⟩ := (inv.setRoot rootInv same).threadUnboundLookup_spec lookup
    obtain ⟨-, -, threads, -⟩ := Hierarchy.threadRemove_frame taken
    have found : h.threads t = some info := found
    have enqueued : t ∈ h.enqueued := by simp [Hierarchy.enqueued, found]
    refine ⟨iff_of_false (Option.some_ne_none t) (Hierarchy.enqueued_ne_empty enqueued), fun t' member => ?_⟩
    rw [Option.mem_some_iff] at member
    subst member
    refine ⟨info, found, ?_, first, fun u info' atU inB => ?_⟩
    · ext u
      by_cases here : u = t
      · subst here
        simp [Hierarchy.enqueued, threads]
      · simp [Hierarchy.enqueued, threads, here]
    · simpa [same.2.1] using highest u info' atU (inB.trans home)

end HighestRemove

section Load

variable {ctun : Tunables} {rtun : RootTunables} {now : UInt64} {h : Hierarchy}

/-- Unbound root bucket `b`'s runq counts the clutch buckets of bucket `b`
that hold a thread: each sits at exactly one level. -/
theorem HierarchyInv.count_eq_ncard (inv : HierarchyInv rtun now h) (b : Nat) :
    (h.root.unbound.buckets b).runq.count = ({x | x % bucketSchedMax = b ∧ ∃ t, h.Holds x t}.ncard : Int) := by
  have ok := ((inv.root_ok.root false).bucket_ok b).runq_ok
  simp only [runqLevels, runqUrgent, Bool.false_eq_true, if_false, Root.side_false] at ok
  set rq := (h.root.unbound.buckets b).runq
  -- the clutch buckets on the runq are those of bucket `b` that hold a thread
  have queued : {x | ∃ p, x ∈ rq.queues p} = {x | x % bucketSchedMax = b ∧ ∃ t, h.Holds x t} := by
    ext x
    constructor
    · rintro ⟨p, member⟩
      obtain ⟨home, busy, -⟩ := inv.queued_of_mem member
      exact ⟨home, (inv.threads_inv.threads_ok x).thrCount_ne_zero_iff.mp busy⟩
    · rintro ⟨rfl, holds⟩
      have busy := (inv.threads_inv.threads_ok x).thrCount_ne_zero_iff.mpr holds
      exact ⟨_, (((inv.link_ok x).queued busy).1 _).mpr rfl⟩
  -- no clutch bucket sits at two levels
  have single : ∀ x p p', x ∈ rq.queues p → x ∈ rq.queues p' → p = p' := fun x p p' atP atQ =>
    (inv.queued_of_mem atP).2.2.trans (inv.queued_of_mem atQ).2.2.symm
  rw [← queued]
  exact ok.count_eq_ncard (inv.root_ok.levels.nodup b) single

/-- On every reachable hierarchy, the global load of each bucket,
`sched_clutch_global_bucket_load`, is the number of clutch buckets of that
bucket that hold a thread, as a `uint32_t`. -/
theorem hierarchyReachable_bucketLoad (online : 0 < rtun.onlineProcessorCount)
    (reach : HierarchyReachable ctun rtun now h) {b : Nat} (small : b < bucketSchedMax) :
    h.bucketLoad b = UInt32.ofNat {x | x % bucketSchedMax = b ∧ ∃ t, h.Holds x t}.ncard := by
  have inv := reach.inv online
  rw [inv.root_ok.load b small, inv.count_eq_ncard b, Int.toNat_natCast]

theorem hierarchyReachable_bucketLoad_sample :
    sampleHierarchy.bucketLoad 1 = UInt32.ofNat {x | x % bucketSchedMax = 1 ∧ ∃ t, sampleHierarchy.Holds x t}.ncard :=
  hierarchyReachable_bucketLoad (by decide) sampleHierarchy_reachable (by decide)

end Load

end Xnu.Clutch
