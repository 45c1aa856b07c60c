import Mathlib
import Xnu.Lib.CInt

namespace Xnu.Clutch

/-! The CPU accounting of a clutch bucket group in `osfmk/kern/sched_clutch.c`
as the clutch scheduler builds it (`!CONFIG_SCHED_EDGE` and `__LP64__`, so
`clutch_cpu_data_t` is `uint64_t` and the run count is updated with double-wide
atomics), and the priority of a clutch bucket computed from it.
`mach_absolute_time()`, the global load of a bucket and the tunables set at boot
are arguments. A division by zero, which C leaves undefined, is `none`. -/

/-- `sched_bucket_t`, the buckets a clutch bucket group can be for. -/
inductive Bucket
  | fixpri
  | shareFg
  | shareIn
  | shareDf
  | shareUt
  | shareBg
  deriving DecidableEq, Repr

/-- The globals `sched_clutch_init` and `sched_clutch_tunables_init` set at boot. -/
structure Tunables where
  /-- `sched_clutch_bucket_group_interactive_pri`, a boot-arg. -/
  interactivePri : UInt8
  /-- `sched_clutch_bucket_group_adjust_threshold`: 500 ms in absolute time. -/
  adjustThreshold : UInt64
  /-- `sched_clutch_bucket_group_pending_delta`, in absolute time. -/
  pendingDelta : Bucket → UInt64

/-- `SCHED_CLUTCH_BUCKET_GROUP_INTERACTIVE_PRI_DEFAULT`. -/
def interactivePriDefault : UInt8 := 8

/-- `SCHED_CLUTCH_BUCKET_GROUP_ADJUST_RATIO`. -/
def adjustRatio : UInt64 := 10

/-- `SCHED_CLUTCH_BUCKET_GROUP_BLOCKED_TS_INVALID`. -/
def blockedTsInvalid : UInt64 := ~~~0

/-- `SCHED_CLUTCH_BUCKET_GROUP_PENDING_INVALID`. -/
def pendingInvalid : UInt64 := ~~~0

/-- `sched_clutch_counter_time_t`. -/
structure CounterTime where
  count : UInt64
  timestamp : UInt64
  deriving DecidableEq, Repr

/-- The fields of `struct sched_clutch_bucket_group` its CPU accounting reads
and writes; `scbg_cpu_data` is `cpuUsed` and `cpuBlocked`. -/
structure BucketGroup where
  bucket : Bucket
  cpuUsed : UInt64
  cpuBlocked : UInt64
  interactivityData : CounterTime
  blockedData : CounterTime
  pendingData : CounterTime
  deriving DecidableEq, Repr

variable (tun : Tunables)

/-- `sched_clutch_bucket_group_init` after its `bzero`: every group starts
interactive, with the threshold as its blocked time and no blocked or pending
timestamp. -/
def bucketGroupInit (bucket : Bucket) : BucketGroup where
  bucket := bucket
  cpuUsed := 0
  cpuBlocked := tun.adjustThreshold
  interactivityData := ⟨tun.interactivePri.toUInt64 * 2, 0⟩
  blockedData := ⟨0, blockedTsInvalid⟩
  pendingData := ⟨0, pendingInvalid⟩

/-- `sched_clutch_bucket_group_cpu_usage_update`: at most the threshold of
`delta` is added to `cpu_used`, nothing for the fixed-priority bucket. -/
def cpuUsageUpdate (g : BucketGroup) (delta : UInt64) : BucketGroup :=
  if g.bucket = .fixpri then g
  else { g with cpuUsed := g.cpuUsed + min delta tun.adjustThreshold }

/-- `sched_clutch_bucket_group_run_count_inc` with `ctime` for
`mach_absolute_time()`: when the run count leaves 0, the time blocked since the
stored timestamp, at most the threshold, is added to `cpu_blocked`. -/
def runCountInc (g : BucketGroup) (ctime : UInt64) : BucketGroup × UInt32 :=
  let old := g.blockedData
  let updateBlockedTime := old.count = 0
  let new : CounterTime := ⟨old.count + 1, if updateBlockedTime then blockedTsInvalid else old.timestamp⟩
  let g := { g with blockedData := new }
  if updateBlockedTime ∧ old.timestamp ≠ blockedTsInvalid ∧ ctime > old.timestamp then
    ({ g with cpuBlocked := g.cpuBlocked + min (ctime - old.timestamp) tun.adjustThreshold }, new.count.toUInt32)
  else (g, new.count.toUInt32)

/-- `sched_clutch_bucket_group_run_count_dec`: when the run count reaches 0 the
blocked timer starts at `ctime`. -/
def runCountDec (g : BucketGroup) (ctime : UInt64) : BucketGroup × UInt32 :=
  let count := g.blockedData.count - 1
  ({ g with blockedData := ⟨count, if count = 0 then ctime else g.blockedData.timestamp⟩ }, count.toUInt32)

/-- `sched_clutch_bucket_group_thr_count_inc`: the pending time starts with the
first pending thread. -/
def thrCountInc (g : BucketGroup) (timestamp : UInt64) : BucketGroup :=
  { g with pendingData :=
      ⟨g.pendingData.count + 1, if g.pendingData.count = 0 then timestamp else g.pendingData.timestamp⟩ }

/-- `sched_clutch_bucket_group_thr_count_dec`. -/
def thrCountDec (g : BucketGroup) (timestamp : UInt64) : BucketGroup :=
  let count := g.pendingData.count - 1
  { g with pendingData := ⟨count, if count = 0 then pendingInvalid else timestamp⟩ }

/-- `sched_clutch_bucket_group_pending_ageout` of the clutch scheduler (the edge
scheduler's does the same in an atomic loop), where `bucket_load` is the `int`
that `sched_clutch_global_bucket_load_get` read: the number of whole
`interactivity_delta` intervals the group has been pending, stored in the
`uint8_t cpu_usage_shift`, and the pending timestamp moved on by that many. -/
def pendingAgeout (bucketLoad : Int32) (g : BucketGroup) (timestamp : UInt64) : Option (BucketGroup × UInt8) :=
  let oldPendingTs := g.pendingData.timestamp
  if oldPendingTs ≥ timestamp ∨ oldPendingTs = pendingInvalid ∨ bucketLoad = 0 then some (g, 0)
  else
    let pendingDelta := timestamp - oldPendingTs
    let interactivityDelta := tun.pendingDelta g.bucket * bucketLoad.toInt64.toUInt64
    if pendingDelta < interactivityDelta then some (g, 0)
    else
      (udiv pendingDelta interactivityDelta).map fun quotient =>
        let cpuUsageShift := quotient.toUInt8
        ({ g with pendingData.timestamp := oldPendingTs + cpuUsageShift.toUInt64 * interactivityDelta },
          cpuUsageShift)

/-- `sched_clutch_bucket_group_cpu_pending_adjust`: each pending interval is
meant to be worth one point of interactivity score. -/
def cpuPendingAdjust (cpuUsed cpuBlocked : UInt64) (pendingIntervals : UInt8) : Option UInt64 :=
  let pri := tun.interactivePri.toUInt64
  if cpuBlocked < cpuUsed then
    udiv (pri * cpuBlocked * cpuUsed) (pri * cpuBlocked + cpuUsed * pendingIntervals.toUInt64)
  else
    (udiv (cpuBlocked * pendingIntervals.toUInt64) pri).map fun adjustFactor =>
      if adjustFactor > cpuUsed then 0 else cpuUsed - adjustFactor

/-- `sched_clutch_bucket_group_cpu_adjust`: nothing when there is no pending
interval and the window is not full; otherwise both values are scaled down by
`SCHED_CLUTCH_BUCKET_GROUP_ADJUST_RATIO` when the window is full, and
`cpu_used` is aged by the pending intervals. -/
def cpuAdjust (g : BucketGroup) (pendingIntervals : UInt8) : Option BucketGroup :=
  if pendingIntervals = 0 ∧ g.cpuUsed + g.cpuBlocked < tun.adjustThreshold then some g
  else
    let (cpuUsed, cpuBlocked) :=
      if g.cpuUsed + g.cpuBlocked ≥ tun.adjustThreshold then (g.cpuUsed / adjustRatio, g.cpuBlocked / adjustRatio)
      else (g.cpuUsed, g.cpuBlocked)
    (cpuPendingAdjust tun cpuUsed cpuBlocked pendingIntervals).map fun cpuUsed =>
      { g with cpuUsed := cpuUsed, cpuBlocked := cpuBlocked }

/-- `sched_clutch_interactivity_from_cpu_data`: the stored score when the group
has no history, above `interactive_pri` for a group that blocks more than it
runs, below it otherwise. The products are `uint64_t`, the result `uint8_t`. -/
def interactivityFromCpuData (g : BucketGroup) : Option UInt8 :=
  let pri := tun.interactivePri.toUInt64
  if g.cpuBlocked = 0 ∧ g.cpuUsed = 0 then some g.interactivityData.count.toUInt8
  else if g.cpuBlocked > g.cpuUsed then
    (udiv (pri * (g.cpuBlocked - g.cpuUsed)) g.cpuBlocked).map fun quotient => (pri + quotient).toUInt8
  else (udiv (pri * g.cpuBlocked) g.cpuUsed).map UInt64.toUInt8

/-- `sched_clutch_bucket_group_interactivity_score_calculate` of the clutch
scheduler: the fixed-priority bucket keeps its score; any other group ages its
CPU usage by its pending time, scales it, and stores the new score when
`timestamp` is later than the stored one. -/
def interactivityScoreCalculate (bucketLoad : Int32) (g : BucketGroup) (timestamp : UInt64) :
    Option (BucketGroup × UInt8) :=
  if g.bucket = .fixpri then some (g, g.interactivityData.count.toUInt8)
  else do
    let (g, pendingIntervals) ← pendingAgeout tun bucketLoad g timestamp
    let g ← cpuAdjust tun g pendingIntervals
    let interactivityScore ← interactivityFromCpuData tun g
    if timestamp > g.interactivityData.timestamp then
      some ({ g with interactivityData := ⟨interactivityScore.toUInt64, timestamp⟩ }, interactivityScore)
    else some (g, g.interactivityData.count.toUInt8)

/-! ### Runs of a bucket group -/

/-- The calls that change a bucket group's accounting. -/
inductive Event
  | cpuUsageUpdate (delta : UInt64)
  | runCountInc (ctime : UInt64)
  | runCountDec (ctime : UInt64)
  | thrCountInc (timestamp : UInt64)
  | thrCountDec (timestamp : UInt64)
  | interactivityScoreCalculate (bucketLoad : Int32) (timestamp : UInt64)
  deriving DecidableEq, Repr

/-- One call; `none` when it divides by zero. -/
def step (g : BucketGroup) : Event → Option BucketGroup
  | .cpuUsageUpdate delta => some (cpuUsageUpdate tun g delta)
  | .runCountInc ctime => some (runCountInc tun g ctime).1
  | .runCountDec ctime => some (runCountDec g ctime).1
  | .thrCountInc timestamp => some (thrCountInc g timestamp)
  | .thrCountDec timestamp => some (thrCountDec g timestamp)
  | .interactivityScoreCalculate bucketLoad timestamp =>
    (interactivityScoreCalculate tun bucketLoad g timestamp).map Prod.fst

/-- A sequence of calls; `none` when one of them divides by zero. -/
def run (g : BucketGroup) : List Event → Option BucketGroup
  | [] => some g
  | e :: es => (step tun g e).bind fun g => run g es

theorem run_append (g : BucketGroup) (es fs : List Event) :
    run tun g (es ++ fs) = (run tun g es).bind fun g => run tun g fs := by
  induction es generalizing g with
  | nil => rfl
  | cons e es ih =>
    simp only [List.cons_append, run]
    cases step tun g e with
    | none => rfl
    | some g' => exact ih g'

/-! ### The priority of a clutch bucket -/

/-- `sched_clutch_tg_priority_t`. -/
inductive TgPriority
  | low
  | med
  | high
  deriving DecidableEq, Repr

/-- `sched_clutch_bucket_group_pri_boost`. -/
def priBoost : TgPriority → UInt8
  | .low => 0
  | .med => 2
  | .high => 4

/-- The priorities of a thread that its clutch bucket reads. -/
structure ClutchThread where
  basePri : UInt8
  schedPri : UInt8
  /-- `sched_thread_sched_pri_promoted(thread)` -/
  promoted : Bool
  deriving DecidableEq, Repr

/-- The key `sched_clutch_thread_insert` gives a thread in
`scb_clutchpri_prioq`: its promoted `sched_pri`, else its `base_pri`. -/
def clutchpriKey (thread : ClutchThread) : UInt8 := if thread.promoted then thread.schedPri else thread.basePri

/-- The fields of `struct sched_clutch_bucket` its priority reads:
`scb_thr_count`, the threads of `scb_clutchpri_prioq`, and `scb_group`. -/
structure ClutchBucket where
  thrCount : UInt16
  clutchpriPrioq : List ClutchThread
  group : BucketGroup
  deriving DecidableEq, Repr

/-- `sched_clutch_bucket_base_pri`: the greatest key of `scb_clutchpri_prioq`
(`priority_queue_max_sched_pri`), 0 when it is empty, plus the boost of the
thread group's priority. -/
def bucketBasePri (clutchBucket : ClutchBucket) (tgPri : TgPriority) : UInt8 :=
  let maxPri : UInt8 := (clutchBucket.clutchpriPrioq.map clutchpriKey).foldr max 0
  maxPri + priBoost tgPri

/-- `sched_clutch_bucket_pri_calculate`: 0 for an empty clutch bucket, else its
base priority plus its group's interactivity score, in `uint8_t`. -/
def bucketPriCalculate (bucketLoad : Int32) (clutchBucket : ClutchBucket) (tgPri : TgPriority)
    (timestamp : UInt64) : Option (ClutchBucket × UInt8) :=
  if clutchBucket.thrCount = 0 then some (clutchBucket, 0)
  else
    let basePri := bucketBasePri clutchBucket tgPri
    (interactivityScoreCalculate tun bucketLoad clutchBucket.group timestamp).map fun (group, interactiveScore) =>
      ({ clutchBucket with group := group }, basePri + interactiveScore)

/-- `NRQS_MAX`, the levels of a `sched_clutch_bucket_runq`. -/
def nrqsMax : Nat := 128

/-- `MAXPRI_PROMOTE`. -/
def maxpriPromote : UInt8 := 95

end Xnu.Clutch
