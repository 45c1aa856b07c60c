import Xnu.PriorityQueue.Stable
import Xnu.Sched.ClutchRoot

namespace Xnu.Clutch

/-! The thread level of the clutch hierarchy of `osfmk/kern/sched_clutch.c`, on
the one cluster of the clutch scheduler: the clutch buckets with the threads
they hold, the root's `scr_thr_count`, `scr_urgency` and `scr_priority`, and
`sched_clutch_thread_insert`, `sched_clutch_thread_remove` and
`sched_clutch_thread_highest_remove` over the root level of
`Xnu.Sched.ClutchRoot` and the clutch bucket priority of `Xnu.Sched.ClutchCpu`.
Clutch bucket `clutch * TH_BUCKET_SCHED_MAX + bucket` is
`sc_clutch_groups[bucket].scbg_clutch_buckets[0]` of clutch `clutch`. A thread
is not changed while it is enqueued, so what the hierarchy reads of it is
recorded when it is inserted. The timeshare queue, `sc_thr_count`,
`scr_clutch_buckets` and the `scbg_pri_shift` update are written and never read
by these routines. A panic, a NULL dereference or a division by zero is
`none`. -/

/-- `sched_bucket_t` as an index of `TH_BUCKET_SCHED_MAX`. -/
def Bucket.toNat : Bucket → Nat
  | .fixpri => 0
  | .shareFg => 1
  | .shareIn => 2
  | .shareDf => 3
  | .shareUt => 4
  | .shareBg => 5

/-- The bucket of an index below `TH_BUCKET_SCHED_MAX`. -/
def bucketOfIndex : Nat → Bucket
  | 0 => .fixpri
  | 1 => .shareFg
  | 2 => .shareIn
  | 3 => .shareDf
  | 4 => .shareUt
  | _ => .shareBg

/-- What the hierarchy reads of a thread: its priorities, the clutch of its
thread group (`sched_clutch_for_thread`) and `th_sched_bucket`. -/
structure HierarchyThread where
  pri : ClutchThread
  clutch : Nat
  bucket : Bucket
  deriving DecidableEq, Repr

/-- The clutch bucket of `clutch` for `bucket`. -/
def clutchBucketIndex (clutch : Nat) (bucket : Bucket) : Nat := clutch * bucketSchedMax + bucket.toNat

def HierarchyThread.clutchBucket (thread : HierarchyThread) : Nat := clutchBucketIndex thread.clutch thread.bucket

/-- A clutch hierarchy: `struct sched_clutch_root`, the clutch buckets and the
enqueued threads. `threads` holds a thread while `thread->runq` is set. -/
structure Hierarchy where
  root : Root
  thrCount : UInt16
  urgency : Int16
  priority : Int16
  clutchBuckets : Nat → ClutchBucket
  /-- `scb_thread_runq` of each clutch bucket. -/
  threadRunqs : Nat → Option (Heap Nat)
  threads : Nat → Option HierarchyThread
  /-- `th_clutch_runq_link.key` and `.stamp` of each thread. -/
  runqKey : Nat → Int16
  runqStamp : Nat → UInt64
  /-- `sched_clutch_global_bucket_load`. -/
  bucketLoad : Nat → UInt32
  /-- `sc_tg_priority` of each clutch. -/
  tgPriority : Nat → TgPriority

/-- The meld decision of the stable max queue `scb_thread_runq`. -/
def Hierarchy.runqBeats (h : Hierarchy) : Nat → Nat → Bool :=
  PriorityQueue.beats true (PriorityQueue.stableCompare h.runqKey h.runqStamp)

/-- `sched_clutch_thr_count_inc` of a `uint16_t` count: a panic on overflow. -/
def clutchThrCountInc (count : UInt16) : Option UInt16 := if count = 0xffff then none else some (count + 1)

/-- `sched_clutch_thr_count_dec`: a panic on underflow. -/
def clutchThrCountDec (count : UInt16) : Option UInt16 := if count = 0 then none else some (count - 1)

/-- `priority_queue_max_sched_pri(&scb_clutchpri_prioq)`, read on a non-empty queue. -/
def clutchpriMaxSchedPri (clutchBucket : ClutchBucket) : UInt8 :=
  (clutchBucket.clutchpriPrioq.map clutchpriKey).foldr max 0

/-- `bitmap_lsb_next(map, nbits, prev)`: the lowest bit set above `prev` and
below `nbits`, or `-1`. -/
def bitmapLsbNext (map : Nat → Bool) (nbits prev : Nat) : Int :=
  match leastFrom map (prev + 1) (nbits - (prev + 1)) with
  | some i => i
  | none => -1

/-- `sched_clutch_thread_bound_lookup`: `run_queue_peek` of the bound thread runq. -/
def threadBoundLookup (rootBucket : RootBucket) : Option Nat :=
  if rootBucket.runq.count > 0 then (rootBucket.runq.queues rootBucket.runq.highq.toNat).head? else none

variable (ctun : Tunables) (rtun : RootTunables)

section Priority

/-- `root_bound_pri` of `sched_clutch_root_pri_update`: `NOPRI`, or `highq` of
the bound root bucket the above-UI rule picks; `none` for its assert. -/
def rootBoundPri (r : Root) : Option Int16 :=
  if bitmapLsbFirst r.bound.runnableBitmap bucketSchedMax = -1 then some (-1)
  else
    let index : Int := if rootBoundSelectAboveui r then bucketFixpri
      else bitmapLsbNext r.bound.runnableBitmap bucketSchedMax bucketFixpri
    if index = -1 then none else some (Int16.ofInt (r.bound.buckets index.toNat).runq.highq)

/-- `root_unbound_pri` of `sched_clutch_root_pri_update`: `NOPRI`, or the
highest base or promoted priority in the highest clutch bucket of the unbound
root bucket the above-UI rule picks; `none` for its assert and a NULL clutch
bucket. -/
def rootUnboundPri (r : Root) : Option Int16 :=
  if bitmapLsbFirst r.unbound.runnableBitmap bucketSchedMax = -1 then some (-1)
  else
    (rootUnboundSelectAboveui r).bind fun aboveui =>
      let index : Int := if aboveui then bucketFixpri
        else bitmapLsbNext r.unbound.runnableBitmap bucketSchedMax bucketFixpri
      if index = -1 then none
      else
        (rootBucketHighestClutchBucket (r.unbound.buckets index.toNat)).map fun clutchBucket =>
          Int16.ofNat (r.clutchBucketMaxSchedPri clutchBucket).toNat

/-- `sched_clutch_root_pri_update`: the new `scr_priority`. -/
def rootPriUpdate (r : Root) : Option Int16 :=
  (rootBoundPri r).bind fun boundPri => (rootUnboundPri r).map fun unboundPri => max boundPri unboundPri

/-- `sched_clutch_bucket_pri_calculate` of clutch bucket `clutchBucket`, at the
global load of its bucket read as an `int`; the clutch bucket keeps what the
calculation wrote into its group. -/
def Hierarchy.bucketPriCalculate (h : Hierarchy) (clutchBucket : Nat) (timestamp : UInt64) :
    Option (Hierarchy × UInt8) :=
  (Xnu.Clutch.bucketPriCalculate ctun (h.bucketLoad (clutchBucket % bucketSchedMax)).toInt32 (h.clutchBuckets clutchBucket)
      (h.tgPriority (clutchBucket / bucketSchedMax)) timestamp).map fun result =>
    ({ h with clutchBuckets := Function.update h.clutchBuckets clutchBucket result.1 }, result.2)

end Priority

section Buckets

/-- `sched_clutch_bucket_update` of a runnable clutch bucket: its new priority
moves it in its root bucket's runq, or it is rotated there on
`SCHED_CLUTCH_BUCKET_OPTIONS_SAMEPRI_RR`. The flag is `scr_priority > root_old_pri`,
false when the priority did not change. -/
def Hierarchy.bucketUpdate (h : Hierarchy) (clutchBucket : Nat) (timestamp : UInt64) (headq samepriRr : Bool) :
    Option (Hierarchy × Bool) :=
  (h.bucketPriCalculate ctun clutchBucket timestamp).bind fun calculated =>
    let h := calculated.1
    let newPri := calculated.2
    (rootStep rtun h.root (.clutchBucketUpdate clutchBucket (clutchBucket % bucketSchedMax) newPri
        (clutchpriMaxSchedPri (h.clutchBuckets clutchBucket)) headq samepriRr timestamp)).bind fun root =>
      if newPri = h.root.clutchBucketPriority clutchBucket then some ({ h with root := root }, false)
      else (rootPriUpdate root).map fun priority => ({ h with root := root, priority := priority }, h.priority < priority)

/-- `sched_clutch_bucket_runnable`: the clutch bucket joins the hierarchy at
its priority and is counted in the global load of its bucket, then
`sched_clutch_bucket_group_timeshare_update` updates a timeshare clutch bucket
once more. -/
def Hierarchy.bucketRunnable (h : Hierarchy) (clutchBucket : Nat) (timestamp : UInt64) (headq : Bool) :
    Option (Hierarchy × Bool) :=
  let bucket := clutchBucket % bucketSchedMax
  (h.bucketPriCalculate ctun clutchBucket timestamp).bind fun calculated =>
    let h := calculated.1
    (rootStep rtun h.root (.clutchBucketRunnable clutchBucket bucket calculated.2
        (clutchpriMaxSchedPri (h.clutchBuckets clutchBucket)) headq timestamp)).bind fun root =>
      let h := { h with root := root, bucketLoad := Function.update h.bucketLoad bucket (h.bucketLoad bucket + 1) }
      let timeshared := if bucket < bucketShareFg then some h
        else (h.bucketUpdate ctun rtun clutchBucket timestamp false false).map Prod.fst
      timeshared.bind fun h =>
        (rootPriUpdate h.root).map fun priority => ({ h with priority := priority }, h.priority < priority)

/-- `sched_clutch_bucket_empty`: the emptied clutch bucket leaves the hierarchy
and the global load, and gets the priority of an empty clutch bucket. -/
def Hierarchy.bucketEmpty (h : Hierarchy) (clutchBucket : Nat) (timestamp : UInt64) : Option Hierarchy :=
  let bucket := clutchBucket % bucketSchedMax
  (bucketHierarchyRemove h.root clutchBucket bucket timestamp).bind fun root =>
    let h := { h with root := root, bucketLoad := Function.update h.bucketLoad bucket (h.bucketLoad bucket - 1) }
    (h.bucketPriCalculate ctun clutchBucket timestamp).bind fun calculated =>
      let h := calculated.1
      let root := { h.root with
        clutchBucketPriority := Function.update h.root.clutchBucketPriority clutchBucket calculated.2 }
      (rootPriUpdate root).map fun priority => { h with root := root, priority := priority }

end Buckets

section Threads

/-- `sched_clutch_root_urgency_inc`. -/
def rootUrgencyInc (urgency : Int16) (thread : HierarchyThread) : Int16 :=
  if rtun.priorityIsUrgent thread.pri.schedPri.toNat then urgency + 1 else urgency

/-- `sched_clutch_root_urgency_dec`. -/
def rootUrgencyDec (urgency : Int16) (thread : HierarchyThread) : Int16 :=
  if rtun.priorityIsUrgent thread.pri.schedPri.toNat then urgency - 1 else urgency

/-- The writes of `sched_clutch_thread_insert` before it calls the clutch
bucket routine: `thread`, with fields `info`, joins the stable runq of its
clutch bucket, keyed by `sched_pri` and the entry's modifier and stamped at
`timestamp`, and its `scb_clutchpri_prioq`; the urgency and the group's
pending count follow, and the two counts become `scbCount` and `rootCount`. -/
def Hierarchy.threadLink (h : Hierarchy) (thread : Nat) (info : HierarchyThread) (tailq : Bool) (timestamp : UInt64)
    (scbCount rootCount : UInt16) : Hierarchy :=
  let clutchBucket := info.clutchBucket
  let modifier : PriorityQueue.SchedModifier := if tailq then .none else .preempted
  let h := { h with
    runqKey := Function.update h.runqKey thread
      (PriorityQueue.prioritySchedKey info.pri.schedPri.toNat modifier.toNat)
    runqStamp := Function.update h.runqStamp thread timestamp }
  let cb := h.clutchBuckets clutchBucket
  { h with
    threadRunqs := Function.update h.threadRunqs clutchBucket
      (some (Heap.merge h.runqBeats (h.threadRunqs clutchBucket) ⟨thread, .leaf⟩))
    threads := Function.update h.threads thread (some info)
    urgency := rootUrgencyInc rtun h.urgency info
    thrCount := rootCount
    clutchBuckets := Function.update h.clutchBuckets clutchBucket
      { cb with
        thrCount := scbCount, clutchpriPrioq := info.pri :: cb.clutchpriPrioq, group := thrCountInc cb.group timestamp } }

/-- `sched_clutch_thread_insert` of `thread`, whose fields are `info`, at
`mach_absolute_time()` = `timestamp`; `tailq` and `headq` are `SCHED_TAILQ`
and `SCHED_HEADQ` of its options. The flag is the one of
`sched_clutch_bucket_runnable` or `sched_clutch_bucket_update`. Inserting a
thread that is enqueued would corrupt its linkages and is `none`. -/
def Hierarchy.threadInsert (h : Hierarchy) (thread : Nat) (info : HierarchyThread) (tailq headq : Bool)
    (timestamp : UInt64) : Option (Hierarchy × Bool) :=
  if (h.threads thread).isSome then none
  else
    let cb := h.clutchBuckets info.clutchBucket
    (clutchThrCountInc cb.thrCount).bind fun scbCount =>
      (clutchThrCountInc h.thrCount).bind fun rootCount =>
        let h := h.threadLink rtun thread info tailq timestamp scbCount rootCount
        if cb.thrCount = 0 then h.bucketRunnable ctun rtun info.clutchBucket timestamp headq
        else h.bucketUpdate ctun rtun info.clutchBucket timestamp headq false

/-- The writes of `sched_clutch_thread_remove` before it calls the clutch
bucket routine: `thread`, with fields `info`, leaves `runq`, the runq of its
clutch bucket, and its `scb_clutchpri_prioq`; the urgency and the group's
pending count follow, and the two counts become `scbCount` and `rootCount`. -/
def Hierarchy.threadUnlink (h : Hierarchy) (thread : Nat) (info : HierarchyThread) (runq : Heap Nat)
    (timestamp : UInt64) (scbCount rootCount : UInt16) : Hierarchy :=
  let clutchBucket := info.clutchBucket
  let cb := h.clutchBuckets clutchBucket
  { h with
    urgency := rootUrgencyDec rtun h.urgency info
    threadRunqs := Function.update h.threadRunqs clutchBucket (Heap.remove h.runqBeats thread runq)
    threads := Function.update h.threads thread none
    thrCount := rootCount
    clutchBuckets := Function.update h.clutchBuckets clutchBucket
      { cb with
        thrCount := scbCount, clutchpriPrioq := cb.clutchpriPrioq.erase info.pri, group := thrCountDec cb.group timestamp } }

/-- `sched_clutch_thread_remove` of `thread` at `timestamp`, with the clutch
bucket options `headq` and `samepriRr`; `none` for its assert that the thread
is enqueued. -/
def Hierarchy.threadRemove (h : Hierarchy) (thread : Nat) (timestamp : UInt64) (headq samepriRr : Bool) :
    Option Hierarchy :=
  (h.threads thread).bind fun info =>
    (h.threadRunqs info.clutchBucket).bind fun runq =>
      let cb := h.clutchBuckets info.clutchBucket
      (clutchThrCountDec h.thrCount).bind fun rootCount =>
        (clutchThrCountDec cb.thrCount).bind fun scbCount =>
          let h := h.threadUnlink rtun thread info runq timestamp scbCount rootCount
          if scbCount = 0 then h.bucketEmpty ctun info.clutchBucket timestamp
          else (h.bucketUpdate ctun rtun info.clutchBucket timestamp headq samepriRr).map Prod.fst

/-- `sched_clutch_thread_unbound_lookup`: the top of the thread runq of the
highest clutch bucket of `rootBucket`; `none` for its assert, and for the NULL
thread `sched_clutch_thread_remove` would dereference. -/
def Hierarchy.threadUnboundLookup (h : Hierarchy) (rootBucket : RootBucket) : Option Nat :=
  (rootBucketHighestClutchBucket rootBucket).bind fun clutchBucket =>
    (h.threadRunqs clutchBucket).map Heap.root

/-- `sched_clutch_thread_highest_remove` at `mach_absolute_time()` = `timestamp`:
the thread taken, `none` for THREAD_NULL. -/
def Hierarchy.threadHighestRemove (h : Hierarchy) (timestamp : UInt64) : Option (Option Nat × Hierarchy) :=
  (rootHighestRootBucket rtun rootSelectFuel h.root timestamp .all).bind fun selected =>
    let h := { h with root := selected.2 }
    match selected.1 with
    | none => some (none, h)
    | some rb =>
      let thread := if rb.bound then threadBoundLookup (h.root.bucketAt rb)
        else h.threadUnboundLookup (h.root.bucketAt rb)
      thread.bind fun thread =>
        (h.threadRemove ctun rtun thread timestamp false true).map fun h => (some thread, h)

/-- An accounting call on the group of clutch bucket `clutchBucket` made from
outside the hierarchy (`sched_clutch_cpu_usage_update`,
`sched_clutch_run_bucket_incr`, `sched_clutch_run_bucket_decr`): the group
becomes what `f` computes of it. -/
def Hierarchy.groupUpdate (h : Hierarchy) (clutchBucket : Nat) (f : BucketGroup → BucketGroup) : Hierarchy :=
  let cb := h.clutchBuckets clutchBucket
  { h with clutchBuckets := Function.update h.clutchBuckets clutchBucket { cb with group := f cb.group } }

end Threads

section Run

/-- The calls into the hierarchy, each at the time it is made: the
timestamp the call reads, and for `sched_clutch_cpu_usage_update`, which reads
none, the time of the call. The accounting calls name the group by its clutch
bucket. -/
inductive HierarchyEvent
  | threadInsert (thread : Nat) (info : HierarchyThread) (tailq headq : Bool) (timestamp : UInt64)
  | threadRemove (thread : Nat) (headq samepriRr : Bool) (timestamp : UInt64)
  | threadHighestRemove (timestamp : UInt64)
  | cpuUsageUpdate (clutchBucket : Nat) (delta timestamp : UInt64)
  | runBucketIncr (clutchBucket : Nat) (timestamp : UInt64)
  | runBucketDecr (clutchBucket : Nat) (timestamp : UInt64)

def HierarchyEvent.timestamp : HierarchyEvent → UInt64
  | .threadInsert _ _ _ _ timestamp => timestamp
  | .threadRemove _ _ _ timestamp => timestamp
  | .threadHighestRemove timestamp => timestamp
  | .cpuUsageUpdate _ _ timestamp => timestamp
  | .runBucketIncr _ timestamp => timestamp
  | .runBucketDecr _ timestamp => timestamp

/-- `sched_clutch_root_init`, with every clutch bucket as
`sched_clutch_bucket_init` and `sched_clutch_bucket_group_init` leave it, and
the thread groups' priorities. -/
def hierarchyInit (tgPriority : Nat → TgPriority) : Hierarchy where
  root := rootInit rtun
  thrCount := 0
  urgency := 0
  priority := -1
  clutchBuckets clutchBucket := ⟨0, [], bucketGroupInit ctun (bucketOfIndex (clutchBucket % bucketSchedMax))⟩
  threadRunqs _ := none
  threads _ := none
  runqKey _ := 0
  runqStamp _ := 0
  bucketLoad _ := 0
  tgPriority := tgPriority

def hierarchyStep (h : Hierarchy) : HierarchyEvent → Option Hierarchy
  | .threadInsert thread info tailq headq timestamp =>
    (h.threadInsert ctun rtun thread info tailq headq timestamp).map Prod.fst
  | .threadRemove thread headq samepriRr timestamp => h.threadRemove ctun rtun thread timestamp headq samepriRr
  | .threadHighestRemove timestamp => (h.threadHighestRemove ctun rtun timestamp).map Prod.snd
  | .cpuUsageUpdate clutchBucket delta _ => some (h.groupUpdate clutchBucket fun g => cpuUsageUpdate ctun g delta)
  | .runBucketIncr clutchBucket timestamp =>
    some (h.groupUpdate clutchBucket fun g => (runCountInc ctun g timestamp).1)
  | .runBucketDecr clutchBucket timestamp => some (h.groupUpdate clutchBucket fun g => (runCountDec g timestamp).1)

def hierarchyRun (h : Hierarchy) : List HierarchyEvent → Option Hierarchy
  | [] => some h
  | e :: es => (hierarchyStep ctun rtun h e).bind fun h => hierarchyRun h es

end Run

end Xnu.Clutch
