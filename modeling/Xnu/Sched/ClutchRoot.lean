import Mathlib
import Xnu.Lib.BitScan
import Xnu.Lib.CInt
import Xnu.PriorityQueue.Pqueue
import Xnu.Sched.RunQueue
import Xnu.Sched.ClutchCpu

namespace Xnu.Clutch

open Sched (RunQueue runQueueInit runQueueEnqueue runQueueRemove)

/-! The root level of the clutch hierarchy in `osfmk/kern/sched_clutch.c`: the
root buckets of one cluster, unbound and bound (`CONFIG_SCHED_EDGE`), made
runnable and empty as clutch buckets and bound threads come and go, and
`sched_clutch_root_highest_root_bucket`, which picks the root bucket to run
next by the above-UI rule, then by earliest deadline with warps and starvation
avoidance. Root bucket `i` of either kind is `scr_*_buckets[i]`. A bitmap is
read one bit at a time; a run queue of clutch buckets or of threads names them
by address (`RunQueue`); the deadline queues `scr_*_root_buckets` are the
pairing heaps they hold (`Heap`; `PriorityQueue.siftDown_spec` and its
neighbours show the pointer-level queue holding them). The boot tables and the
cluster's processor count are arguments. A panic, a NULL dereference or a
division by zero is `none`. -/

/-- `TH_BUCKET_SCHED_MAX`. -/
def bucketSchedMax : Nat := 6

/-- `TH_BUCKET_FIXPRI`, the above-UI bucket. -/
def bucketFixpri : Nat := 0

/-- `TH_BUCKET_SHARE_FG`. -/
def bucketShareFg : Nat := 1

/-- `NRQS`, the levels of a `struct run_queue`. -/
def nrqs : Nat := 96

/-- `SCHED_CLUTCH_INVALID_TIME_64`. -/
def invalidTime64 : UInt64 := ~~~0

/-- `SCHED_CLUTCH_ROOT_BUCKET_WARP_UNUSED`. -/
def warpUnused : UInt64 := invalidTime64

/-- The globals the root level reads: the tables `sched_clutch_us_to_abstime`
fills at boot, by bucket, the scheduler's `priority_is_urgent`, and
`online_processor_count` of the cluster's processor set. -/
structure RootTunables where
  /-- `sched_clutch_root_bucket_wcel`. -/
  rootBucketWcel : Nat → UInt64
  /-- `sched_clutch_root_bucket_warp`. -/
  rootBucketWarp : Nat → UInt64
  /-- `sched_clutch_thread_quantum`. -/
  threadQuantum : Nat → UInt64
  priorityIsUrgent : Nat → Bool
  onlineProcessorCount : Int32

/-- `struct sched_clutch_root_bucket`. `scrb_bucket` and `scrb_bound` are where
it is stored (`RootBucketRef`); `runq` is the union of `scrb_clutch_buckets`,
used when unbound, and `scrb_bound_thread_runq`, used when bound. -/
structure RootBucket where
  starvationAvoidance : Bool
  runq : RunQueue Nat
  /-- `scrb_pqlink.deadline`. -/
  deadline : UInt64
  warpedDeadline : UInt64
  warpRemaining : UInt64
  starvationTs : UInt64

/-- A root bucket: `scr_bound_buckets[bucket]` or `scr_unbound_buckets[bucket]`. -/
structure RootBucketRef where
  bound : Bool
  bucket : Nat
  deriving DecidableEq, Repr

/-- The fields of `struct sched_clutch_root` for the root buckets of one kind:
`scr_*_runnable_bitmap`, `scr_*_warp_available`, `scr_*_root_buckets` and
`scr_*_buckets`. -/
structure RootSide where
  runnableBitmap : Nat → Bool
  warpAvailable : Nat → Bool
  rootBuckets : Option (Heap Nat)
  buckets : Nat → RootBucket

/-- `struct sched_clutch_root` as its root-level routines see it, with the
fields they read of the clutch buckets and threads it holds. -/
structure Root where
  unbound : RootSide
  bound : RootSide
  /-- `scb_priority` of each clutch bucket. -/
  clutchBucketPriority : Nat → UInt8
  /-- `priority_queue_max_sched_pri(&scb_clutchpri_prioq)` of each clutch bucket. -/
  clutchBucketMaxSchedPri : Nat → UInt8
  /-- `sched_pri` of each thread. -/
  threadSchedPri : Nat → UInt8

/-- `sched_clutch_highest_root_bucket_type_t`. -/
inductive HighestRootBucketType
  | unboundOnly
  | all
  deriving DecidableEq, Repr

section Access

def RootSide.setBucket (side : RootSide) (bucket : Nat) (rootBucket : RootBucket) : RootSide :=
  { side with buckets := Function.update side.buckets bucket rootBucket }

def Root.side (r : Root) (bound : Bool) : RootSide := if bound then r.bound else r.unbound

def Root.setSide (r : Root) (bound : Bool) (side : RootSide) : Root :=
  if bound then { r with bound := side } else { r with unbound := side }

def Root.bucketAt (r : Root) (rb : RootBucketRef) : RootBucket := (r.side rb.bound).buckets rb.bucket

def Root.setBucket (r : Root) (rb : RootBucketRef) (rootBucket : RootBucket) : Root :=
  r.setSide rb.bound ((r.side rb.bound).setBucket rb.bucket rootBucket)

/-- The meld decision of `priority_queue_deadline_min` on the root buckets of
one kind, at their current deadlines. -/
def RootSide.beats (side : RootSide) : Nat → Nat → Bool :=
  PriorityQueue.mergeParentIsSubtreeB false (PriorityQueue.deadlineCompare fun b => (side.buckets b).deadline)

/-- `bitmap_lsb_first(map, nbits)`: the lowest set bit below `nbits`, or `-1`. -/
def bitmapLsbFirst (map : Nat → Bool) (nbits : Nat) : Int :=
  match leastFrom map 0 nbits with
  | some i => i
  | none => -1

end Access

section Runq

/-- `sched_clutch_bucket_runq_enqueue`: a clutch bucket runq is a run queue of
clutch buckets with no urgent level, and a clutch bucket joins a non-empty
level at the tail unless `SCHED_CLUTCH_BUCKET_OPTIONS_HEADQ`. -/
def clutchBucketRunqEnqueue (rq : RunQueue Nat) (clutchBucket pri : Nat) (headq : Bool) : RunQueue Nat :=
  (runQueueEnqueue (fun _ => false) rq clutchBucket pri !headq).1

/-- `sched_clutch_bucket_runq_remove`. `bitmap_first(scbrq_bitmap, NRQS)` reads
the two words of the bitmap whole, so it finds the highest bit set below
`NRQS_MAX`. -/
def clutchBucketRunqRemove (rq : RunQueue Nat) (clutchBucket pri : Nat) : RunQueue Nat :=
  runQueueRemove nrqsMax (fun _ => false) rq clutchBucket pri

/-- `sched_clutch_bucket_runq_rotate`: the head of its level, asserted to be
`clutchBucket`, goes to the tail. -/
def clutchBucketRunqRotate (rq : RunQueue Nat) (clutchBucket pri : Nat) : Option (RunQueue Nat) :=
  match rq.queues pri with
  | first :: rest =>
    if first = clutchBucket then some { rq with queues := Function.update rq.queues pri (rest ++ [first]) }
    else none
  | [] => none

/-- `sched_clutch_bucket_runq_peek`: the head of level `highq`, NULL on an
empty runq. -/
def clutchBucketRunqPeek (rq : RunQueue Nat) : Option Nat :=
  if rq.count > 0 then (rq.queues rq.highq.toNat).head? else none

/-- `sched_clutch_root_bucket_highest_clutch_bucket`. -/
def rootBucketHighestClutchBucket (rootBucket : RootBucket) : Option Nat :=
  if rootBucket.runq.count = 0 then none else clutchBucketRunqPeek rootBucket.runq

end Runq

variable (tun : RootTunables)

section RootBuckets

/-- `sched_clutch_root_bucket_init`. -/
def rootBucketInit (bucket : Nat) : RootBucket where
  starvationAvoidance := false
  runq := runQueueInit
  deadline := invalidTime64
  warpedDeadline := 0
  warpRemaining := tun.rootBucketWarp bucket
  starvationTs := 0

/-- The root buckets of one kind after `sched_clutch_root_init`. -/
def rootSideInit : RootSide := ⟨fun _ => false, fun _ => false, none, rootBucketInit tun⟩

/-- `sched_clutch_root_init`; the clutch buckets and threads have no field set yet. -/
def rootInit : Root := ⟨rootSideInit tun, rootSideInit tun, fun _ => 0, fun _ => 0, fun _ => 0⟩

/-- `sched_clutch_root_bucket_deadline_calculate`. -/
def rootBucketDeadlineCalculate (bucket : Nat) (timestamp : UInt64) : UInt64 :=
  if bucket < bucketShareFg then 0 else timestamp + tun.rootBucketWcel bucket

/-- `sched_clutch_root_bucket_deadline_update`: `none` is its panic on a
deadline that would move back. The queue moves the root bucket down by
`priority_queue_entry_increased`, a `sift_down` on a min queue. -/
def rootBucketDeadlineUpdate (r : Root) (rb : RootBucketRef) (timestamp : UInt64) : Option Root :=
  if rb.bucket = bucketFixpri then some r
  else
    let oldDeadline := (r.bucketAt rb).deadline
    let newDeadline := rootBucketDeadlineCalculate tun rb.bucket timestamp
    if oldDeadline > newDeadline then none
    else if oldDeadline ≠ newDeadline then
      let side := (r.side rb.bound).setBucket rb.bucket { r.bucketAt rb with deadline := newDeadline }
      side.rootBuckets.map fun h =>
        r.setSide rb.bound { side with
          rootBuckets := some (Heap.merge side.beats (Heap.remove side.beats rb.bucket h) ⟨rb.bucket, .leaf⟩) }
    else some r

/-- `sched_clutch_root_bucket_runnable`. -/
def rootBucketRunnable (r : Root) (rb : RootBucketRef) (timestamp : UInt64) : Root :=
  let side := r.side rb.bound
  let side := { side with runnableBitmap := Function.update side.runnableBitmap rb.bucket true }
  if rb.bucket = bucketFixpri then r.setSide rb.bound side
  else
    let rootBucket := side.buckets rb.bucket
    -- a root bucket in starvation avoidance keeps its deadline
    let rootBucket := if rootBucket.starvationAvoidance = false then
      { rootBucket with deadline := rootBucketDeadlineCalculate tun rb.bucket timestamp } else rootBucket
    let side := side.setBucket rb.bucket rootBucket
    let side := { side with rootBuckets := some (Heap.merge side.beats side.rootBuckets ⟨rb.bucket, .leaf⟩) }
    let side := if rootBucket.warpRemaining ≠ 0 then
      { side with warpAvailable := Function.update side.warpAvailable rb.bucket true } else side
    r.setSide rb.bound side

/-- `sched_clutch_root_bucket_empty`; `none` when the deadline queue is empty. -/
def rootBucketEmpty (r : Root) (rb : RootBucketRef) (timestamp : UInt64) : Option Root :=
  let side := r.side rb.bound
  let side := { side with runnableBitmap := Function.update side.runnableBitmap rb.bucket false }
  if rb.bucket = bucketFixpri then some (r.setSide rb.bound side)
  else
    side.rootBuckets.map fun h =>
      let side := { side with
        rootBuckets := Heap.remove side.beats rb.bucket h
        warpAvailable := Function.update side.warpAvailable rb.bucket false }
      let rootBucket := side.buckets rb.bucket
      -- an open warp window keeps what is left of it; a used one is spent
      let rootBucket :=
        if rootBucket.warpedDeadline > timestamp then
          { rootBucket with warpRemaining := rootBucket.warpedDeadline - timestamp }
        else if rootBucket.warpedDeadline ≠ warpUnused then { rootBucket with warpRemaining := 0 }
        else rootBucket
      r.setSide rb.bound (side.setBucket rb.bucket rootBucket)

end RootBuckets

section Hierarchy

/-- `sched_clutch_bucket_hierarchy_insert` of clutch bucket `clutchBucket` into
`scr_unbound_buckets[bucket]`, at its `scb_priority`; `none` past the runq's
`NRQS_MAX` levels. -/
def bucketHierarchyInsert (r : Root) (clutchBucket bucket : Nat) (timestamp : UInt64) (headq : Bool) :
    Option Root :=
  let rb : RootBucketRef := ⟨false, bucket⟩
  let r := if (r.bucketAt rb).runq.count = 0 then rootBucketRunnable tun r rb timestamp else r
  let pri := (r.clutchBucketPriority clutchBucket).toNat
  if pri < nrqsMax then
    some (r.setBucket rb { r.bucketAt rb with runq := clutchBucketRunqEnqueue (r.bucketAt rb).runq clutchBucket pri headq })
  else none

/-- `sched_clutch_bucket_hierarchy_remove`; `none` when the clutch bucket is not
queued at its `scb_priority`, where `circle_dequeue` would corrupt the runq. -/
def bucketHierarchyRemove (r : Root) (clutchBucket bucket : Nat) (timestamp : UInt64) : Option Root :=
  let rb : RootBucketRef := ⟨false, bucket⟩
  let rq := (r.bucketAt rb).runq
  let pri := (r.clutchBucketPriority clutchBucket).toNat
  if clutchBucket ∈ rq.queues pri then
    let r := r.setBucket rb { r.bucketAt rb with runq := clutchBucketRunqRemove rq clutchBucket pri }
    if (r.bucketAt rb).runq.count = 0 then rootBucketEmpty r rb timestamp else some r
  else none

/-- `sched_clutch_bucket_update` of a runnable clutch bucket whose priority
computes to `newPri`: a new priority moves it between levels of its runq, the
same one rotates it when `SCHED_CLUTCH_BUCKET_OPTIONS_SAMEPRI_RR`. -/
def clutchBucketUpdate (r : Root) (clutchBucket bucket : Nat) (newPri : UInt8) (headq samepriRr : Bool) :
    Option Root :=
  let rb : RootBucketRef := ⟨false, bucket⟩
  let rq := (r.bucketAt rb).runq
  let oldPri := (r.clutchBucketPriority clutchBucket).toNat
  if newPri = r.clutchBucketPriority clutchBucket then
    if samepriRr then
      (clutchBucketRunqRotate rq clutchBucket oldPri).map fun rq => r.setBucket rb { r.bucketAt rb with runq := rq }
    else some r
  else if clutchBucket ∈ rq.queues oldPri ∧ newPri.toNat < nrqsMax then
    let rq := clutchBucketRunqRemove rq clutchBucket oldPri
    let r := { r with clutchBucketPriority := Function.update r.clutchBucketPriority clutchBucket newPri }
    some (r.setBucket rb { r.bucketAt rb with runq := clutchBucketRunqEnqueue rq clutchBucket newPri.toNat headq })
  else none

/-- `sched_edge_bound_thread_insert` of `thread` into `scr_bound_buckets[bucket]`
at its `sched_pri`; `none` past the `NRQS` levels (`rq_bitmap_set` asserts it). -/
def boundThreadInsert (r : Root) (thread bucket : Nat) (tailq : Bool) (timestamp : UInt64) : Option Root :=
  let rb : RootBucketRef := ⟨true, bucket⟩
  let r := if (r.bucketAt rb).runq.count = 0 then rootBucketRunnable tun r rb timestamp else r
  let pri := (r.threadSchedPri thread).toNat
  if pri < nrqs then
    some (r.setBucket rb
      { r.bucketAt rb with runq := (runQueueEnqueue tun.priorityIsUrgent (r.bucketAt rb).runq thread pri tailq).1 })
  else none

/-- `sched_edge_bound_thread_remove`; `none` when the thread is not queued at its
`sched_pri`. -/
def boundThreadRemove (r : Root) (thread bucket : Nat) (timestamp : UInt64) : Option Root :=
  let rb : RootBucketRef := ⟨true, bucket⟩
  let rq := (r.bucketAt rb).runq
  let pri := (r.threadSchedPri thread).toNat
  if thread ∈ rq.queues pri then
    let r := r.setBucket rb { r.bucketAt rb with runq := runQueueRemove nrqs tun.priorityIsUrgent rq thread pri }
    if (r.bucketAt rb).runq.count = 0 then rootBucketEmpty r rb timestamp else some r
  else none

end Hierarchy

section Highest

/-- `sched_clutch_root_unbound_select_aboveui`. -/
def rootUnboundSelectAboveui (r : Root) : Option Bool :=
  if r.unbound.runnableBitmap bucketFixpri then
    if !r.unbound.runnableBitmap bucketShareFg then some true
    else
      (rootBucketHighestClutchBucket (r.unbound.buckets bucketFixpri)).bind fun aboveui =>
        (rootBucketHighestClutchBucket (r.unbound.buckets bucketShareFg)).map fun sharefg =>
          r.clutchBucketPriority aboveui ≥ r.clutchBucketPriority sharefg
  else some false

/-- `sched_clutch_root_bound_select_aboveui`. -/
def rootBoundSelectAboveui (r : Root) : Bool :=
  let aboveui := (r.bound.buckets bucketFixpri).runq
  let sharefg := (r.bound.buckets bucketShareFg).runq
  if aboveui.count = 0 then false else aboveui.highq ≥ sharefg.highq

/-- `highest_runnable_bucket`: the lowest runnable bucket of the kinds `type`
takes, or `-1`. -/
def highestRunnableBucket (r : Root) : HighestRootBucketType → Int
  | .unboundOnly => bitmapLsbFirst r.unbound.runnableBitmap bucketSchedMax
  | .all =>
    let unbound := bitmapLsbFirst r.unbound.runnableBitmap bucketSchedMax
    let bound := bitmapLsbFirst r.bound.runnableBitmap bucketSchedMax
    if bound ≠ -1 then (if unbound ≠ -1 then min bound unbound else bound) else unbound

/-- `edf_bucket`: `priority_queue_min` of the deadline queues `type` takes, the
bound one on equal deadlines; `none` is NULL. -/
def edfBucket (r : Root) : HighestRootBucketType → Option RootBucketRef
  | .unboundOnly => (r.unbound.rootBuckets.map Heap.root).map (⟨false, ·⟩)
  | .all =>
    match r.unbound.rootBuckets.map Heap.root, r.bound.rootBuckets.map Heap.root with
    | some unbound, some bound =>
      if (r.bound.buckets bound).deadline ≤ (r.unbound.buckets unbound).deadline then some ⟨true, bound⟩
      else some ⟨false, unbound⟩
    | unbound, bound => (bound.map (⟨true, ·⟩)).or (unbound.map (⟨false, ·⟩))

/-- The loop at `evaluate_root_buckets`, `fuel` passes at most: `none` when the
fuel runs out, on a NULL `edf_bucket`, a zero `online_processor_count`, or a
panic of `sched_clutch_root_bucket_deadline_update`. -/
def evaluateRootBuckets (timestamp : UInt64) (type : HighestRootBucketType) (highest : Int) :
    Nat → Root → Option (RootBucketRef × Root)
  | 0, _ => none
  | fuel + 1, r =>
    (edfBucket r type).bind fun edf =>
      let side := r.side edf.bound
      let edfRootBucket := side.buckets edf.bucket
      let warpBucketIndex := bitmapLsbFirst side.warpAvailable bucketSchedMax
      if warpBucketIndex = -1 ∨ warpBucketIndex ≥ edf.bucket then
        -- no higher bucket has warp left: the earliest deadline wins
        if edfRootBucket.starvationAvoidance then
          (udiv (tun.threadQuantum edf.bucket) tun.onlineProcessorCount.toInt64.toUInt64).bind fun starvationWindow =>
            if timestamp < edfRootBucket.starvationTs + starvationWindow then some (edf, r)
            else
              let r := r.setBucket edf { edfRootBucket with starvationAvoidance := false, starvationTs := 0 }
              (rootBucketDeadlineUpdate tun r edf timestamp).bind (evaluateRootBuckets timestamp type highest fuel)
        else if highest < edf.bucket then
          some (edf, r.setBucket edf { edfRootBucket with starvationAvoidance := true, starvationTs := timestamp })
        else
          (rootBucketDeadlineUpdate tun r edf timestamp).map fun r =>
            let r := r.setBucket edf
              { r.bucketAt edf with warpRemaining := tun.rootBucketWarp edf.bucket, warpedDeadline := warpUnused }
            (edf, r.setSide edf.bound
              { r.side edf.bound with warpAvailable := Function.update (r.side edf.bound).warpAvailable edf.bucket true })
      else
        -- a higher bucket of the same kind may warp ahead
        let warp : RootBucketRef := ⟨edf.bound, warpBucketIndex.toNat⟩
        let warpRootBucket := r.bucketAt warp
        if warpRootBucket.warpedDeadline = warpUnused then
          let r := r.setBucket warp { warpRootBucket with warpedDeadline := timestamp + warpRootBucket.warpRemaining }
          (rootBucketDeadlineUpdate tun r warp timestamp).map (warp, ·)
        else if warpRootBucket.warpedDeadline > timestamp then
          (rootBucketDeadlineUpdate tun r warp timestamp).map (warp, ·)
        else
          let r := r.setBucket warp { warpRootBucket with warpRemaining := 0 }
          evaluateRootBuckets timestamp type highest fuel
            (r.setSide warp.bound
              { r.side warp.bound with warpAvailable := Function.update (r.side warp.bound).warpAvailable warp.bucket false })

/-- `sched_clutch_root_highest_root_bucket`, its loop run for `fuel` passes at
most; `some (none, r)` is NULL. -/
def rootHighestRootBucket (fuel : Nat) (r : Root) (timestamp : UInt64) (type : HighestRootBucketType) :
    Option (Option RootBucketRef × Root) :=
  let highest := highestRunnableBucket r type
  if highest = -1 then some (none, r)
  else
    (rootUnboundSelectAboveui r).bind fun unboundAboveui =>
      let evaluate := (evaluateRootBuckets tun timestamp type highest fuel r).map fun (rb, r) => (some rb, r)
      match type with
      | .unboundOnly => if unboundAboveui then some (some ⟨false, bucketFixpri⟩, r) else evaluate
      | .all =>
        let boundAboveui := rootBoundSelectAboveui r
        if unboundAboveui ∧ boundAboveui then
          -- both above-UI buckets are runnable: the higher thread wins
          let boundAboveuiPri := (r.bound.buckets bucketFixpri).runq.highq
          (rootBucketHighestClutchBucket (r.unbound.buckets bucketFixpri)).map fun clutchBucket =>
            let unboundAboveuiPri : Int := (r.clutchBucketMaxSchedPri clutchBucket).toNat
            (some (if boundAboveuiPri ≥ unboundAboveuiPri then ⟨true, bucketFixpri⟩ else ⟨false, bucketFixpri⟩), r)
        else if unboundAboveui then some (some ⟨false, bucketFixpri⟩, r)
        else if boundAboveui then some (some ⟨true, bucketFixpri⟩, r)
        else evaluate

end Highest

section Run

/-- What reaches the root level, each at the `timestamp` it passes: a clutch
bucket made runnable, updated or emptied (with the `scb_priority` and
`priority_queue_max_sched_pri` its threads give it, computed by
`sched_clutch_bucket_pri_calculate`), a bound thread inserted or removed, and a
`sched_clutch_root_highest_root_bucket` call. -/
inductive RootEvent
  | clutchBucketRunnable (clutchBucket bucket : Nat) (priority maxSchedPri : UInt8) (headq : Bool) (timestamp : UInt64)
  | clutchBucketUpdate (clutchBucket bucket : Nat) (priority maxSchedPri : UInt8) (headq samepriRr : Bool)
      (timestamp : UInt64)
  | clutchBucketEmpty (clutchBucket bucket : Nat) (priority : UInt8) (timestamp : UInt64)
  | boundThreadInsert (thread bucket : Nat) (schedPri : UInt8) (tailq : Bool) (timestamp : UInt64)
  | boundThreadRemove (thread bucket : Nat) (timestamp : UInt64)
  | highestRootBucket (type : HighestRootBucketType) (timestamp : UInt64)

def RootEvent.timestamp : RootEvent → UInt64
  | .clutchBucketRunnable _ _ _ _ _ timestamp => timestamp
  | .clutchBucketUpdate _ _ _ _ _ _ timestamp => timestamp
  | .clutchBucketEmpty _ _ _ timestamp => timestamp
  | .boundThreadInsert _ _ _ _ timestamp => timestamp
  | .boundThreadRemove _ _ timestamp => timestamp
  | .highestRootBucket _ timestamp => timestamp

/-- The passes a selection is given: more than the warp bits and starvation
flags that can be set at once. -/
def rootSelectFuel : Nat := 4 * bucketSchedMax + 1

/-- One event; `none` also for a bucket past `TH_BUCKET_SCHED_MAX`. The
clutch bucket's fields are written as `sched_clutch_bucket_runnable`,
`sched_clutch_bucket_update` and `sched_clutch_bucket_empty` write them. -/
def rootStep (r : Root) : RootEvent → Option Root
  | .clutchBucketRunnable clutchBucket bucket priority maxSchedPri headq timestamp =>
    if bucket < bucketSchedMax then
      bucketHierarchyInsert tun
        { r with
          clutchBucketPriority := Function.update r.clutchBucketPriority clutchBucket priority
          clutchBucketMaxSchedPri := Function.update r.clutchBucketMaxSchedPri clutchBucket maxSchedPri }
        clutchBucket bucket timestamp headq
    else none
  | .clutchBucketUpdate clutchBucket bucket priority maxSchedPri headq samepriRr _ =>
    if bucket < bucketSchedMax then
      clutchBucketUpdate
        { r with clutchBucketMaxSchedPri := Function.update r.clutchBucketMaxSchedPri clutchBucket maxSchedPri }
        clutchBucket bucket priority headq samepriRr
    else none
  | .clutchBucketEmpty clutchBucket bucket priority timestamp =>
    if bucket < bucketSchedMax then
      (bucketHierarchyRemove r clutchBucket bucket timestamp).map fun r =>
        { r with clutchBucketPriority := Function.update r.clutchBucketPriority clutchBucket priority }
    else none
  | .boundThreadInsert thread bucket schedPri tailq timestamp =>
    if bucket < bucketSchedMax then
      boundThreadInsert tun { r with threadSchedPri := Function.update r.threadSchedPri thread schedPri }
        thread bucket tailq timestamp
    else none
  | .boundThreadRemove thread bucket timestamp =>
    if bucket < bucketSchedMax then boundThreadRemove tun r thread bucket timestamp else none
  | .highestRootBucket type timestamp => (rootHighestRootBucket tun rootSelectFuel r timestamp type).map Prod.snd

def rootRun (r : Root) : List RootEvent → Option Root
  | [] => some r
  | e :: es => (rootStep tun r e).bind fun r => rootRun r es

end Run

end Xnu.Clutch
