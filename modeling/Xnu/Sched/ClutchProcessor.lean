import Xnu.Sched.ClutchThread

namespace Xnu.Clutch

open Sched (RunQueue runQueueInit runQueueEnqueue runQueueDequeue runQueueRemove)

/-! The processor operations of the clutch scheduler (`sched_clutch_dispatch`
in `osfmk/kern/sched_clutch.c`) on one processor set: its hierarchy
`pset_clutch_root`, which holds the threads any of its processors may run, and
its processors, each with the run queue `processor->runq` of the threads bound
to it. `sched_clutch_processor_enqueue`, `sched_clutch_choose_thread` and
`sched_clutch_processor_queue_remove` move threads on and off the queues;
`sched_clutch_processor_queue_empty`, `sched_clutch_runq_count`,
`sched_clutch_processor_bound_count`,
`sched_clutch_processor_queue_has_priority` and
`sched_clutch_processor_csw_check` read them. A thread records in `runq` the
processor whose queue it is on. Between the calls the rest of the scheduler
changes threads that are on no queue and switches processors to other
threads; the accounting calls of the hierarchy are made too. An assert is
`none`. -/

/-- The fields of `struct thread` the processor operations read and write:
what the hierarchy reads of it, `bound_processor`, and `runq`. -/
structure PsetThread where
  info : HierarchyThread
  boundProcessor : Option Nat
  runq : Option Nat
  deriving DecidableEq, Repr

/-- The fields of `struct processor` the operations read: the bound run queue
`runq`, `processor_primary`, `current_pri`, `first_timeslice` and
`active_thread`. -/
structure Processor where
  runq : RunQueue Nat
  primary : Nat
  currentPri : Int
  firstTimeslice : Bool
  activeThread : Option Nat

/-- A processor set: `pset_clutch_root`, its processors, and the threads. -/
structure Pset where
  root : Hierarchy
  processors : Nat → Processor
  threads : Nat → PsetThread

/-- `SCHED_CLUTCH_THREAD_ELIGIBLE`: the thread is bound to no processor. -/
def PsetThread.eligible (thread : PsetThread) : Bool := thread.boundProcessor.isNone

/-- The level of a thread in a `struct run_queue`: its `sched_pri`. -/
def PsetThread.level (thread : PsetThread) : Nat := thread.info.pri.schedPri.toNat

/-- `BASEPRI_RTQUEUES`. -/
def basepriRtqueues : Int := 97

/-- `AST_NONE`. -/
def astNone : UInt32 := 0x00

/-- `AST_PREEMPT`. -/
def astPreempt : UInt32 := 0x01

/-- `AST_URGENT`. -/
def astUrgent : UInt32 := 0x04

/-- `sched_clutch_root_urgency`: `scr_urgency`, an `int16_t`, returned as a
`uint32_t`. -/
def Hierarchy.rootUrgency (h : Hierarchy) : UInt32 := h.urgency.toInt32.toUInt32

section Operations

variable (ctun : Tunables) (rtun : RootTunables)

/-- The thread's record with `runq` set to `runq`. -/
def Pset.setRunq (p : Pset) (thread : Nat) (runq : Option Nat) : Pset :=
  { p with threads := Function.update p.threads thread { p.threads thread with runq := runq } }

/-- Processor `processor` with its bound run queue replaced by `rq`. -/
def Pset.setBoundRunq (p : Pset) (processor : Nat) (rq : RunQueue Nat) : Pset :=
  { p with processors := Function.update p.processors processor { p.processors processor with runq := rq } }

/-- `sched_clutch_processor_enqueue(processor, thread, options)` at
`mach_absolute_time()` = `timestamp`; `tailq` and `headq` are `SCHED_TAILQ` and
`SCHED_HEADQ`. The flag is the one of `sched_clutch_thread_insert` or
`run_queue_enqueue`. A thread already on a queue (`thread_setrun` asserts it is
on none), a bound thread enqueued on another processor
(`sched_clutch_thread_bound_runq` asserts it is not), and a bound thread whose
`sched_pri` is no level of `processor->runq` (`rq_bitmap_set` asserts it) are
`none`. -/
def Pset.processorEnqueue (p : Pset) (processor thread : Nat) (tailq headq : Bool) (timestamp : UInt64) :
    Option (Pset × Bool) :=
  let th := p.threads thread
  if th.runq.isSome then none
  else
    let p := p.setRunq thread (some processor)
    if th.eligible then
      (p.root.threadInsert ctun rtun thread th.info tailq headq timestamp).map fun inserted =>
        ({ p with root := inserted.1 }, inserted.2)
    else if th.boundProcessor = some processor ∧ th.level < nrqs then
      let enqueued := runQueueEnqueue rtun.priorityIsUrgent (p.processors processor).runq thread th.level tailq
      some (p.setBoundRunq processor enqueued.1, enqueued.2)
    else none

/-- `run_queue_dequeue(bound_runq, SCHED_HEADQ)`, which clears the thread's
`runq`; `none` for its assert that it finds a thread. -/
def Pset.boundDequeue (p : Pset) (processor : Nat) : Option (Pset × Option Nat) :=
  let dequeued := runQueueDequeue nrqs rtun.priorityIsUrgent (p.processors processor).runq true
  dequeued.2.map fun thread => (((p.setBoundRunq processor dequeued.1).setRunq thread none), some thread)

/-- `sched_clutch_thread_highest_remove(pset_clutch_root)` at `timestamp`, whose
`sched_clutch_thread_remove` clears the thread's `runq`. -/
def Pset.clutchDequeue (p : Pset) (timestamp : UInt64) : Option (Pset × Option Nat) :=
  (p.root.threadHighestRemove ctun rtun timestamp).map fun removed =>
    let p := { p with root := removed.2 }
    match removed.1 with
    | none => (p, none)
    | some thread => (p.setRunq thread none, some thread)

/-- `sched_clutch_choose_thread(processor, priority, reason)` at
`mach_absolute_time()` = `timestamp`, with THREAD_NULL as `none`. -/
def Pset.chooseThread (p : Pset) (processor : Nat) (priority : Int) (timestamp : UInt64) :
    Option (Pset × Option Nat) :=
  let clutchPri : Int := p.root.priority.toInt
  let clutchCount := p.root.thrCount
  let boundRunq := (p.processors processor).runq
  if boundRunq.highq < priority ∧ clutchPri < priority then some (p, none)
  else if boundRunq.count = 0 ∧ clutchCount = 0 then some (p, none)
  else
    let chooseFromBoundq :=
      if boundRunq.count ≠ 0 ∧ clutchCount ≠ 0 then decide (boundRunq.highq ≥ clutchPri) else boundRunq.count ≠ 0
    if chooseFromBoundq then p.boundDequeue rtun processor else p.clutchDequeue ctun rtun timestamp

/-- `sched_clutch_processor_queue_remove(processor, thread)` at
`mach_absolute_time()` = `timestamp`: whether the thread was on the queue of
`processor`, and is now off it. A thread on another processor's queue fails
the assert that it is on none; `run_queue_remove` of a thread that is not at
its `sched_pri` in the bound run queue would corrupt it, and is `none`. -/
def Pset.processorQueueRemove (p : Pset) (processor thread : Nat) (timestamp : UInt64) : Option (Pset × Bool) :=
  let th := p.threads thread
  if th.runq = some processor then
    if th.eligible then
      (p.root.threadRemove ctun rtun thread timestamp false false).map fun root =>
        (({ p with root := root } : Pset).setRunq thread none, true)
    else
      let rq := (p.processors processor).runq
      if th.boundProcessor = some processor ∧ thread ∈ rq.queues th.level then
        some ((p.setBoundRunq processor (runQueueRemove nrqs rtun.priorityIsUrgent rq thread th.level)).setRunq thread none,
          true)
      else none
  else if th.runq.isNone then some (p, false)
  else none

end Operations

section Queries

variable (p : Pset) (processor : Nat)

/-- `sched_clutch_processor_queue_empty`. -/
def Pset.processorQueueEmpty : Bool := p.root.thrCount = 0 && (p.processors processor).runq.count = 0

/-- `sched_clutch_runq_count`. -/
def Pset.runqCount : Int := (p.root.thrCount.toNat : Int) + (p.processors processor).runq.count

/-- `sched_clutch_processor_bound_count`. -/
def Pset.processorBoundCount : Int := (p.processors processor).runq.count

/-- `sched_clutch_processor_queue_has_priority(processor, priority, gte)`. -/
def Pset.processorQueueHasPriority (priority : Int) (gte : Bool) : Bool :=
  let qpri := max p.root.priority.toInt (p.processors processor).runq.highq
  if gte then decide (qpri ≥ priority) else decide (qpri > priority)

/-- `sched_clutch_thread_avoid_processor(processor, thread)` for a thread at
`sched_pri = schedPri`; `allowRtSmt` is `sched_allow_rt_smt`. -/
def Pset.threadAvoidProcessor (allowRtSmt : Bool) (schedPri : Int) : Bool :=
  let primary := (p.processors processor).primary
  primary ≠ processor && (p.processors primary).currentPri ≥ basepriRtqueues &&
    (schedPri < basepriRtqueues || !allowRtSmt)

/-- `sched_clutch_processor_csw_check(processor)` while `current` is
`current_thread()`; `none` for its assert that the processor runs a thread. -/
def Pset.processorCswCheck (allowRtSmt : Bool) (current : Nat) : Option UInt32 :=
  let pr := p.processors processor
  if p.threadAvoidProcessor processor allowRtSmt (p.threads current).level then some (astPreempt ||| astUrgent)
  else if pr.activeThread.isNone then none
  else
    let pri := max p.root.priority.toInt pr.runq.highq
    let hasHigher := if pr.firstTimeslice then decide (pri > pr.currentPri) else decide (pri ≥ pr.currentPri)
    if hasHigher then
      if p.root.rootUrgency > 0 then some (astPreempt ||| astUrgent)
      else if pr.runq.urgency > 0 then some (astPreempt ||| astUrgent)
      else some astPreempt
    else some astNone

end Queries

section Run

/-- The calls on a processor set, each at the time it is made, and what the
rest of the scheduler does between them: `threadUpdate` changes a thread that
is on no queue (a new `sched_pri`, a binding), `processorSwitch` switches a
processor to another thread, and the accounting calls go to the hierarchy. -/
inductive PsetEvent
  | processorEnqueue (processor thread : Nat) (tailq headq : Bool) (timestamp : UInt64)
  | chooseThread (processor : Nat) (priority : Int) (timestamp : UInt64)
  | processorQueueRemove (processor thread : Nat) (timestamp : UInt64)
  | threadUpdate (thread : Nat) (info : HierarchyThread) (boundProcessor : Option Nat) (timestamp : UInt64)
  | processorSwitch (processor : Nat) (currentPri : Int) (firstTimeslice : Bool) (activeThread : Option Nat)
      (timestamp : UInt64)
  | cpuUsageUpdate (clutchBucket : Nat) (delta timestamp : UInt64)
  | runBucketIncr (clutchBucket : Nat) (timestamp : UInt64)
  | runBucketDecr (clutchBucket : Nat) (timestamp : UInt64)

def PsetEvent.timestamp : PsetEvent → UInt64
  | .processorEnqueue _ _ _ _ timestamp => timestamp
  | .chooseThread _ _ timestamp => timestamp
  | .processorQueueRemove _ _ timestamp => timestamp
  | .threadUpdate _ _ _ timestamp => timestamp
  | .processorSwitch _ _ _ _ timestamp => timestamp
  | .cpuUsageUpdate _ _ timestamp => timestamp
  | .runBucketIncr _ timestamp => timestamp
  | .runBucketDecr _ timestamp => timestamp

variable (ctun : Tunables) (rtun : RootTunables)

/-- `sched_clutch_pset_init` and `sched_clutch_processor_init` of each
processor: an empty hierarchy and empty bound run queues. The processors'
other fields and the threads, which neither routine sets, are given, with no
thread on a queue. -/
def psetInit (tgPriority : Nat → TgPriority) (processors : Nat → Processor) (threads : Nat → PsetThread) : Pset where
  root := hierarchyInit ctun rtun tgPriority
  processors processor := { processors processor with runq := runQueueInit }
  threads thread := { threads thread with runq := none }

/-- A change the rest of the scheduler makes to a thread, which it makes only
to a thread on no queue (`set_sched_pri` and `thread_bind` take it off first):
`none` otherwise. -/
def Pset.threadUpdate (p : Pset) (thread : Nat) (info : HierarchyThread) (boundProcessor : Option Nat) :
    Option Pset :=
  if (p.threads thread).runq.isSome then none
  else some { p with threads := Function.update p.threads thread ⟨info, boundProcessor, none⟩ }

/-- A context switch of `processor`: the fields `csw_check` reads, not its run queue. -/
def Pset.processorSwitch (p : Pset) (processor : Nat) (currentPri : Int) (firstTimeslice : Bool)
    (activeThread : Option Nat) : Pset :=
  let pr := p.processors processor
  { p with
    processors := Function.update p.processors processor
      { pr with currentPri := currentPri, firstTimeslice := firstTimeslice, activeThread := activeThread } }

/-- An accounting call of the hierarchy. -/
def Pset.rootStep (p : Pset) (e : HierarchyEvent) : Option Pset :=
  (hierarchyStep ctun rtun p.root e).map fun root => { p with root := root }

def psetStep (p : Pset) : PsetEvent → Option Pset
  | .processorEnqueue processor thread tailq headq timestamp =>
    (p.processorEnqueue ctun rtun processor thread tailq headq timestamp).map Prod.fst
  | .chooseThread processor priority timestamp => (p.chooseThread ctun rtun processor priority timestamp).map Prod.fst
  | .processorQueueRemove processor thread timestamp =>
    (p.processorQueueRemove ctun rtun processor thread timestamp).map Prod.fst
  | .threadUpdate thread info boundProcessor _ => p.threadUpdate thread info boundProcessor
  | .processorSwitch processor currentPri firstTimeslice activeThread _ =>
    some (p.processorSwitch processor currentPri firstTimeslice activeThread)
  | .cpuUsageUpdate clutchBucket delta timestamp => p.rootStep ctun rtun (.cpuUsageUpdate clutchBucket delta timestamp)
  | .runBucketIncr clutchBucket timestamp => p.rootStep ctun rtun (.runBucketIncr clutchBucket timestamp)
  | .runBucketDecr clutchBucket timestamp => p.rootStep ctun rtun (.runBucketDecr clutchBucket timestamp)

def psetRun (p : Pset) : List PsetEvent → Option Pset
  | [] => some p
  | e :: es => (psetStep ctun rtun p e).bind fun p => psetRun p es

end Run

end Xnu.Clutch
