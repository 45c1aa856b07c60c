import Xnu.Sched.ClutchThreadRun

namespace Xnu.Clutch

/-! The clutch hierarchy seen from its callers: a map from each thread to what
the hierarchy holds of it, or nothing where it is not enqueued. An insertion
adds a thread that is not enqueued, a removal takes one that is, a highest
removal takes some enqueued thread and takes none only from an empty
hierarchy, and the accounting calls move no thread. Every run of the hierarchy
is a run of this model on its `threads`: no interleaving of the calls loses,
duplicates or invents a thread. Which thread a highest removal takes, and
that it returns, is in `Xnu.Sched.ClutchThreadReturns`. -/

/-- The threads a hierarchy holds, with their fields. -/
abbrev EnqueuedThreads := Nat → Option HierarchyThread

/-- What each call may do to the enqueued threads. -/
inductive EnqueuedStep : EnqueuedThreads → HierarchyEvent → EnqueuedThreads → Prop
  | threadInsert {s : EnqueuedThreads} {thread : Nat} {info : HierarchyThread} {tailq headq : Bool}
      {timestamp : UInt64} :
      s thread = none →
      EnqueuedStep s (.threadInsert thread info tailq headq timestamp) (Function.update s thread (some info))
  | threadRemove {s : EnqueuedThreads} {thread : Nat} {info : HierarchyThread} {headq samepriRr : Bool}
      {timestamp : UInt64} :
      s thread = some info →
      EnqueuedStep s (.threadRemove thread headq samepriRr timestamp) (Function.update s thread none)
  | highestNone {s : EnqueuedThreads} {timestamp : UInt64} :
      (∀ t, s t = none) → EnqueuedStep s (.threadHighestRemove timestamp) s
  | highestSome {s : EnqueuedThreads} {thread : Nat} {info : HierarchyThread} {timestamp : UInt64} :
      s thread = some info → EnqueuedStep s (.threadHighestRemove timestamp) (Function.update s thread none)
  | cpuUsageUpdate {s : EnqueuedThreads} {clutchBucket : Nat} {delta timestamp : UInt64} :
      EnqueuedStep s (.cpuUsageUpdate clutchBucket delta timestamp) s
  | runBucketIncr {s : EnqueuedThreads} {clutchBucket : Nat} {timestamp : UInt64} :
      EnqueuedStep s (.runBucketIncr clutchBucket timestamp) s
  | runBucketDecr {s : EnqueuedThreads} {clutchBucket : Nat} {timestamp : UInt64} :
      EnqueuedStep s (.runBucketDecr clutchBucket timestamp) s

/-- The runs of the model. -/
inductive EnqueuedRun : EnqueuedThreads → List HierarchyEvent → EnqueuedThreads → Prop
  | nil (s : EnqueuedThreads) : EnqueuedRun s [] s
  | cons {s s' s'' : EnqueuedThreads} {e : HierarchyEvent} {events : List HierarchyEvent} :
      EnqueuedStep s e s' → EnqueuedRun s' events s'' → EnqueuedRun s (e :: events) s''

section Refinement

variable {ctun : Tunables} {rtun : RootTunables} {now : UInt64} {h h' : Hierarchy}

/-- Each call into a hierarchy that keeps the invariant is a step of the model
on its enqueued threads. -/
theorem hierarchyStep_refines (online : 0 < rtun.onlineProcessorCount) (inv : HierarchyInv rtun now h)
    {e : HierarchyEvent} (later : now.toNat ≤ e.timestamp.toNat) (noWrap : NoWrap rtun e.timestamp)
    (stepped : hierarchyStep ctun rtun h e = some h') : EnqueuedStep h.threads e h'.threads := by
  cases e with
  | threadInsert thread info tailq headq timestamp =>
    obtain ⟨⟨h'', flag⟩, inserted, rfl⟩ := Option.map_eq_some_iff.mp stepped
    obtain ⟨fresh, threads, -⟩ := Hierarchy.threadInsert_frame inserted
    rw [threads]
    exact .threadInsert fresh
  | threadRemove thread headq samepriRr timestamp =>
    obtain ⟨info, found, threads, -⟩ := Hierarchy.threadRemove_frame stepped
    rw [threads]
    exact .threadRemove found
  | threadHighestRemove timestamp =>
    obtain ⟨⟨res, h''⟩, removed, rfl⟩ := Option.map_eq_some_iff.mp stepped
    obtain ⟨r₁, -, -, ⟨-, rfl, idle⟩ | ⟨b, t, -, -, -, taken⟩⟩ :=
      Hierarchy.threadHighestRemove_cases online inv later noWrap removed
    · -- THREAD_NULL only from an empty hierarchy
      have empty := inv.enqueued_eq_empty_iff.mpr idle
      refine .highestNone fun t => Option.not_isSome_iff_eq_none.mp fun enqueued => ?_
      have member : t ∈ h.enqueued := enqueued
      rw [empty] at member
      exact member
    · obtain ⟨info, found, threads, -⟩ := Hierarchy.threadRemove_frame taken
      rw [threads]
      exact .highestSome found
  | cpuUsageUpdate x delta timestamp =>
    cases stepped
    exact .cpuUsageUpdate
  | runBucketIncr x timestamp =>
    cases stepped
    exact .runBucketIncr
  | runBucketDecr x timestamp =>
    cases stepped
    exact .runBucketDecr

/-- The map the model runs on is what the queues hold: a thread is enqueued
exactly when the thread runq of some clutch bucket holds it, and then that of
its own clutch bucket holds it once, and that clutch bucket sits in the runq of
its root bucket at its priority. -/
theorem HierarchyInv.threads_queued (inv : HierarchyInv rtun now h) (t : Nat) :
    ((h.threads t).isSome ↔ ∃ x, t ∈ Heap.membersOf (h.threadRunqs x)) ∧
      ∀ info, h.threads t = some info →
        (Heap.membersOf (h.threadRunqs info.clutchBucket)).count t = 1 ∧
        info.clutchBucket ∈ (h.root.unbound.buckets (info.clutchBucket % bucketSchedMax)).runq.queues
          (h.root.clutchBucketPriority info.clutchBucket).toNat := by
  refine ⟨⟨fun enqueued => ?_, fun ⟨x, member⟩ => ?_⟩, fun info found => ?_⟩
  · obtain ⟨info, found⟩ := Option.isSome_iff_exists.mp enqueued
    exact ⟨info.clutchBucket, ((inv.threads_inv.threads_ok _).members_iff t).mpr ⟨info, found, rfl⟩⟩
  · obtain ⟨info, found, -⟩ := ((inv.threads_inv.threads_ok x).members_iff t).mp member
    simp [found]
  · have ok := inv.threads_inv.threads_ok info.clutchBucket
    have member := (ok.members_iff t).mpr ⟨info, found, rfl⟩
    have held := ok.thrCount_ne_zero_iff.mpr ⟨t, info, found, rfl⟩
    exact ⟨List.count_eq_one_of_mem ok.nodup member, ((inv.link_ok _).queued held).1.mem⟩

/-- Every run from `sched_clutch_root_init` whose timestamps never go back and
where no deadline wraps is, on the enqueued threads, a run of the model from no
thread: no interleaving of insertions, removals, highest removals and
accounting calls loses, duplicates or invents a thread. The map it ends in is
what the queues hold. -/
theorem hierarchyRun_refines (online : 0 < rtun.onlineProcessorCount) (tgPriority : Nat → TgPriority)
    {events : List HierarchyEvent} (run : hierarchyRun ctun rtun (hierarchyInit ctun rtun tgPriority) events = some h)
    (ordered : events.Pairwise fun e e' => e.timestamp.toNat ≤ e'.timestamp.toNat)
    (noWrap : ∀ e ∈ events, NoWrap rtun e.timestamp) :
    EnqueuedRun (fun _ => none) events h.threads ∧
      ∀ t, ((h.threads t).isSome ↔ ∃ x, t ∈ Heap.membersOf (h.threadRunqs x)) ∧
        ∀ info, h.threads t = some info →
          (Heap.membersOf (h.threadRunqs info.clutchBucket)).count t = 1 ∧
          info.clutchBucket ∈ (h.root.unbound.buckets (info.clutchBucket % bucketSchedMax)).runq.queues
            (h.root.clutchBucketPriority info.clutchBucket).toNat := by
  -- every timestamp is at most the last one a `uint64_t` holds
  have timed : ∀ e ∈ events, (0 : UInt64).toNat ≤ e.timestamp.toNat ∧
      e.timestamp.toNat ≤ (UInt64.ofNat (2 ^ 64 - 1)).toNat ∧ NoWrap rtun e.timestamp :=
    fun e member => ⟨Nat.zero_le _, by have := e.timestamp.toNat_lt; simp; omega, noWrap e member⟩
  obtain ⟨inv, refined⟩ := hierarchyRun_induction online (fun h events h' => EnqueuedRun h.threads events h'.threads)
    (fun h => .nil h.threads)
    (fun inv later noWrap stepped rest => .cons (hierarchyStep_refines online inv later noWrap stepped) rest)
    (hierarchyInit_inv tgPriority) (Nat.zero_le _) timed ordered run
  exact ⟨refined, inv.threads_queued⟩

theorem hierarchyRun_refines_sample : EnqueuedRun (fun _ => none) sampleHierarchyEvents sampleHierarchy.threads :=
  (hierarchyRun_refines (by decide) (fun _ => .med) sampleHierarchy_run (by decide)
    fun e member => (sampleHierarchyEvents_timed e member).2).1

end Refinement

end Xnu.Clutch
