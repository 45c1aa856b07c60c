import Xnu.Sched.ClutchProcessor
import Xnu.Sched.ClutchThreadSpec

namespace Xnu.Clutch

open Sched (RunQueue runQueueEnqueue runQueueDequeue runQueueRemove)

/-! Where the threads of a processor set are. A thread on a queue and bound to
no processor is in the hierarchy, with its fields; one bound to a processor is
in that processor's run queue, once, at its `sched_pri`; and `runq` says which
processor's queue a thread is on. Every call keeps this, with the invariants of
the hierarchy and of each run queue, so `sched_clutch_choose_thread` takes only
a thread the processor may run and no call loses, duplicates or invents a
thread; and the queries report what is queued for the processor. -/

/-- What the hierarchy holds of a thread: its fields, while it is on a queue
and bound to no processor. -/
def PsetThread.hierarchyEntry (th : PsetThread) : Option HierarchyThread :=
  if th.runq.isSome ∧ th.boundProcessor = none then some th.info else none

/-- The thread is on the queue of `processor`, to which it is bound. -/
def PsetThread.BoundOn (th : PsetThread) (processor : Nat) : Prop :=
  th.runq = some processor ∧ th.boundProcessor = some processor

/-- Thread `t` is on a queue `processor` takes threads from: the hierarchy, or
its own bound run queue. -/
def Pset.QueuedFor (p : Pset) (processor t : Nat) : Prop :=
  (p.threads t).runq.isSome ∧ ((p.threads t).boundProcessor = none ∨ (p.threads t).boundProcessor = some processor)

section Invariant

variable (rtun : RootTunables)

/-- The queues hold exactly the threads whose `runq` is set: the hierarchy
those bound to no processor, with their fields, and each processor's run queue
those bound to it, once each, at their `sched_pri`. -/
structure Placement (p : Pset) : Prop where
  hierarchy : ∀ t, p.root.threads t = (p.threads t).hierarchyEntry
  bound_mem : ∀ q pri t, t ∈ (p.processors q).runq.queues pri ↔ (p.threads t).BoundOn q ∧ pri = (p.threads t).level
  bound_nodup : ∀ q pri, ((p.processors q).runq.queues pri).Nodup
  runq_bound : ∀ t q q', (p.threads t).runq = some q → (p.threads t).boundProcessor = some q' → q' = q

/-- The invariant of a processor set once no timestamp passed so far is past
`now`: the hierarchy's, with `scr_priority` NOPRI exactly while it holds no
thread, each bound run queue's, and the placement of the threads. -/
structure PsetInv (now : UInt64) (p : Pset) : Prop where
  root : HierarchyInv rtun now p.root
  priority : p.root.priority = -1 ↔ p.root.enqueued = ∅
  runq_ok : ∀ q, RunQueue.Ok nrqs rtun.priorityIsUrgent (p.processors q).runq
  placement : Placement p

end Invariant

section Fields

variable {p : Pset} {thread processor : Nat} {runq : Option Nat} {rq : RunQueue Nat}

@[simp] theorem Pset.setRunq_root : (p.setRunq thread runq).root = p.root := rfl

@[simp] theorem Pset.setRunq_processors : (p.setRunq thread runq).processors = p.processors := rfl

@[simp] theorem Pset.setRunq_threads :
    (p.setRunq thread runq).threads = Function.update p.threads thread { p.threads thread with runq := runq } := rfl

@[simp] theorem Pset.setBoundRunq_root : (p.setBoundRunq processor rq).root = p.root := rfl

@[simp] theorem Pset.setBoundRunq_threads : (p.setBoundRunq processor rq).threads = p.threads := rfl

@[simp] theorem Pset.setBoundRunq_runq (q : Nat) :
    ((p.setBoundRunq processor rq).processors q).runq = if q = processor then rq else (p.processors q).runq := by
  by_cases here : q = processor
  · subst here
    simp [Pset.setBoundRunq]
  · simp [Pset.setBoundRunq, here]

theorem PsetThread.hierarchyEntry_of_runq {th : PsetThread} (off : th.runq = none) : th.hierarchyEntry = none := by
  simp [PsetThread.hierarchyEntry, off]

theorem PsetThread.hierarchyEntry_eq_some {th : PsetThread} {info : HierarchyThread} :
    th.hierarchyEntry = some info ↔ th.runq.isSome ∧ th.boundProcessor = none ∧ th.info = info := by
  unfold PsetThread.hierarchyEntry
  split
  · rename_i queued
    simp [queued]
  · rename_i unqueued
    simp only [reduceCtorEq, false_iff]
    exact fun ⟨onQueue, unbound, _⟩ => unqueued ⟨onQueue, unbound⟩

theorem PsetThread.hierarchyEntry_of_bound {th : PsetThread} {q : Nat} (bound : th.boundProcessor = some q) :
    th.hierarchyEntry = none := by
  simp [PsetThread.hierarchyEntry, bound]

end Fields

section Placement

variable {p p' : Pset} {thread q : Nat}

theorem Placement.not_boundOn (ok : Placement p) {t : Nat} (off : (p.threads t).runq = none) (q pri : Nat) :
    t ∉ (p.processors q).runq.queues pri := fun member => by
  have onQueue := ((ok.bound_mem q pri t).mp member).1.1
  rw [off] at onQueue
  cases onQueue

/-- A call that moves no thread keeps the placement. -/
theorem Placement.congr (ok : Placement p) (root : p'.root.threads = p.root.threads) (threads : p'.threads = p.threads)
    (runqs : ∀ q, (p'.processors q).runq = (p.processors q).runq) : Placement p' where
  hierarchy t := by rw [root, threads]; exact ok.hierarchy t
  bound_mem q pri t := by rw [runqs, threads]; exact ok.bound_mem q pri t
  bound_nodup q pri := by rw [runqs]; exact ok.bound_nodup q pri
  runq_bound t q q' := by rw [threads]; exact ok.runq_bound t q q'

/-- A thread bound to no processor going on or off a queue: the hierarchy
gains or loses it, and no bound run queue changes. -/
theorem Placement.moveUnbound (ok : Placement p) {runq : Option Nat} (unbound : (p.threads thread).boundProcessor = none)
    (root : p'.root.threads =
      Function.update p.root.threads thread ({ p.threads thread with runq := runq } : PsetThread).hierarchyEntry)
    (threads : p'.threads = Function.update p.threads thread { p.threads thread with runq := runq })
    (runqs : ∀ q, (p'.processors q).runq = (p.processors q).runq) : Placement p' where
  hierarchy t := by
    by_cases here : t = thread
    · subst here
      simp [root, threads]
    · simp [root, threads, here, ok.hierarchy t]
  bound_mem q pri t := by
    rw [runqs, ok.bound_mem, threads]
    by_cases here : t = thread
    · subst here
      simp [PsetThread.BoundOn, unbound]
    · simp [here]
  bound_nodup q pri := by rw [runqs]; exact ok.bound_nodup q pri
  runq_bound t q q' := by
    rw [threads]
    by_cases here : t = thread
    · subst here
      simp [unbound]
    · rw [Function.update_of_ne here]
      exact ok.runq_bound t q q'

/-- A thread bound to processor `q` going on or off `q`'s run queue, which
becomes `rq`: the thread is at its level in `rq` exactly while it is on the
queue, and no other thread moves. -/
theorem Placement.moveBound (ok : Placement p) {runq : Option Nat} {rq : RunQueue Nat}
    (bound : (p.threads thread).boundProcessor = some q) (target : runq = none ∨ runq = some q)
    (self : ∀ pri, thread ∈ rq.queues pri ↔ runq = some q ∧ pri = (p.threads thread).level)
    (others : ∀ pri t, t ≠ thread → (t ∈ rq.queues pri ↔ t ∈ (p.processors q).runq.queues pri))
    (nodup : ∀ pri, (rq.queues pri).Nodup) : Placement ((p.setRunq thread runq).setBoundRunq q rq) where
  hierarchy t := by
    by_cases here : t = thread
    · subst here
      simp [PsetThread.hierarchyEntry, bound, ok.hierarchy]
    · simp [here, ok.hierarchy t]
  bound_mem q' pri t := by
    by_cases here : t = thread
    · subst here
      by_cases same : q' = q
      · subst same
        simp [self, PsetThread.BoundOn, bound, PsetThread.level]
      · -- the thread is bound to `q`, so it is at no level of another processor's queue
        have elsewhere : t ∉ (p.processors q').runq.queues pri := fun member => by
          have boundOn := ((ok.bound_mem q' pri t).mp member).1.2
          rw [bound, Option.some.injEq] at boundOn
          exact same boundOn.symm
        simp [same, elsewhere, PsetThread.BoundOn, bound, Ne.symm same]
    · by_cases same : q' = q
      · subst same
        simp [others pri t here, ok.bound_mem, here]
      · simp [same, here, ok.bound_mem]
  bound_nodup q' pri := by
    by_cases same : q' = q
    · subst same
      simpa using nodup pri
    · simpa [same] using ok.bound_nodup q' pri
  runq_bound t q₁ q₂ := by
    by_cases here : t = thread
    · subst here
      simp only [Pset.setBoundRunq_threads, Pset.setRunq_threads, Function.update_self, bound, Option.some.injEq]
      rintro onQueue rfl
      rcases target with rfl | rfl
      · cases onQueue
      · exact Option.some.inj onQueue
    · simp only [Pset.setBoundRunq_threads, Pset.setRunq_threads, Function.update_of_ne here]
      exact ok.runq_bound t q₁ q₂

/-- A change to a thread on no queue that leaves it on none. -/
theorem Placement.updateOff (ok : Placement p) {th : PsetThread} (off : (p.threads thread).runq = none)
    (off' : th.runq = none) : Placement { p with threads := Function.update p.threads thread th } where
  hierarchy t := by
    by_cases here : t = thread
    · subst here
      simp [PsetThread.hierarchyEntry_of_runq off', ok.hierarchy, PsetThread.hierarchyEntry_of_runq off]
    · simp [here, ok.hierarchy t]
  bound_mem q pri t := by
    by_cases here : t = thread
    · subst here
      simp [ok.not_boundOn off, PsetThread.BoundOn, off']
    · simp [here, ok.bound_mem q pri t]
  bound_nodup := ok.bound_nodup
  runq_bound t q q' := by
    by_cases here : t = thread
    · subst here
      simp [off']
    · simp only [Function.update_of_ne here]
      exact ok.runq_bound t q q'

end Placement

section RunQueues

variable {rtun : RootTunables} {p : Pset} {processor : Nat} {rq : RunQueue Nat}

theorem runqOk_setBoundRunq (ok : ∀ q, RunQueue.Ok nrqs rtun.priorityIsUrgent (p.processors q).runq)
    (ok' : RunQueue.Ok nrqs rtun.priorityIsUrgent rq) :
    ∀ q, RunQueue.Ok nrqs rtun.priorityIsUrgent ((p.setBoundRunq processor rq).processors q).runq := by
  intro q
  by_cases here : q = processor
  · simpa [here] using ok'
  · simpa [here] using ok q

end RunQueues

section Moves

variable {ctun : Tunables} {rtun : RootTunables} {now ts : UInt64} {p : Pset} {thread processor : Nat}

theorem PsetInv.mono (inv : PsetInv rtun now p) (later : now.toNat ≤ ts.toNat) : PsetInv rtun ts p :=
  ⟨inv.root.mono later, inv.priority, inv.runq_ok, inv.placement⟩

/-- One call into the hierarchy keeps its part of the invariant. -/
theorem PsetInv.afterHierarchyStep (online : 0 < rtun.onlineProcessorCount) (inv : PsetInv rtun now p) {e : HierarchyEvent}
    {root' : Hierarchy} (stepped : hierarchyStep ctun rtun p.root e = some root') (later : now.toNat ≤ e.timestamp.toNat)
    (noWrap : NoWrap rtun e.timestamp) :
    HierarchyInv rtun e.timestamp root' ∧ (root'.priority = -1 ↔ root'.enqueued = ∅) :=
  ⟨hierarchyStep_inv online inv.root later noWrap stepped,
    hierarchyStep_priority online inv.root later noWrap inv.priority stepped⟩

/-- A thread bound to no processor going on or off a queue through one call
into the hierarchy. -/
theorem PsetInv.unboundMove (online : 0 < rtun.onlineProcessorCount) (inv : PsetInv rtun now p) {e : HierarchyEvent}
    {root' : Hierarchy} {runq : Option Nat} (stepped : hierarchyStep ctun rtun p.root e = some root')
    (later : now.toNat ≤ e.timestamp.toNat) (noWrap : NoWrap rtun e.timestamp)
    (unbound : (p.threads thread).boundProcessor = none)
    (threads : root'.threads =
      Function.update p.root.threads thread ({ p.threads thread with runq := runq } : PsetThread).hierarchyEntry) :
    PsetInv rtun e.timestamp (({ p with root := root' } : Pset).setRunq thread runq) := by
  obtain ⟨rootInv, priority⟩ := inv.afterHierarchyStep online stepped later noWrap
  exact ⟨rootInv, priority, inv.runq_ok, inv.placement.moveUnbound unbound threads rfl fun _ => rfl⟩

/-- A thread bound to `processor` joining its run queue at its `sched_pri`. -/
theorem PsetInv.boundEnter (inv : PsetInv rtun now p) (later : now.toNat ≤ ts.toNat)
    (off : (p.threads thread).runq = none) (bound : (p.threads thread).boundProcessor = some processor)
    (inside : (p.threads thread).level < nrqs) (tailq : Bool) :
    PsetInv rtun ts ((p.setRunq thread (some processor)).setBoundRunq processor
      (runQueueEnqueue rtun.priorityIsUrgent (p.processors processor).runq thread (p.threads thread).level tailq).1) := by
  have fresh := inv.placement.not_boundOn off processor (p.threads thread).level
  refine ⟨inv.root.mono later, inv.priority,
    runqOk_setBoundRunq inv.runq_ok ((inv.runq_ok processor).enqueue thread tailq inside),
    inv.placement.moveBound bound (.inr rfl) (fun pri => ?_) (fun pri t apart => ?_)
      (Sched.nodup_runQueueEnqueue tailq (inv.placement.bound_nodup processor) fresh)⟩
  · rw [Sched.mem_runQueueEnqueue]
    simp [inv.placement.not_boundOn off]
  · rw [Sched.mem_runQueueEnqueue]
    simp [apart]

/-- A thread on the run queue of `processor`, to which it is bound, leaving it
by `run_queue_remove`. -/
theorem PsetInv.boundLeave (inv : PsetInv rtun now p) (later : now.toNat ≤ ts.toNat)
    (boundOn : (p.threads thread).BoundOn processor) :
    PsetInv rtun ts ((p.setRunq thread none).setBoundRunq processor
      (runQueueRemove nrqs rtun.priorityIsUrgent (p.processors processor).runq thread (p.threads thread).level)) := by
  have member := (inv.placement.bound_mem processor _ thread).mpr ⟨boundOn, rfl⟩
  have nodup := inv.placement.bound_nodup processor
  refine ⟨inv.root.mono later, inv.priority, runqOk_setBoundRunq inv.runq_ok ((inv.runq_ok processor).remove member),
    inv.placement.moveBound boundOn.2 (.inl rfl) (fun pri => ?_) (fun pri t apart => ?_)
      (Sched.nodup_runQueueRemove nodup)⟩
  · -- the thread sat at its own level only
    rw [Sched.mem_runQueueRemove (nodup _), inv.placement.bound_mem]
    simp [boundOn]
  · rw [Sched.mem_runQueueRemove (nodup _)]
    simp [apart]

end Moves

section Enqueue

variable {ctun : Tunables} {rtun : RootTunables} {now ts : UInt64} {p p' : Pset} {processor thread : Nat}
  {tailq headq flag : Bool}

/-- `sched_clutch_processor_enqueue` puts a thread on no queue into the
hierarchy when it is bound to no processor, and at its `sched_pri` into the
run queue of `processor` when it is bound to it. -/
theorem Pset.processorEnqueue_cases
    (enqueued : p.processorEnqueue ctun rtun processor thread tailq headq ts = some (p', flag)) :
    (p.threads thread).runq = none ∧
      (((p.threads thread).boundProcessor = none ∧ ∃ root,
          p.root.threadInsert ctun rtun thread (p.threads thread).info tailq headq ts = some (root, flag) ∧
          p' = ({ p with root := root } : Pset).setRunq thread (some processor)) ∨
        ((p.threads thread).boundProcessor = some processor ∧ (p.threads thread).level < nrqs ∧
          let enqueued := runQueueEnqueue rtun.priorityIsUrgent (p.processors processor).runq thread
            (p.threads thread).level tailq
          flag = enqueued.2 ∧ p' = (p.setRunq thread (some processor)).setBoundRunq processor enqueued.1)) := by
  unfold Pset.processorEnqueue at enqueued
  dsimp only at enqueued
  split at enqueued
  · cases enqueued
  · rename_i onQueue
    refine ⟨Option.not_isSome_iff_eq_none.mp onQueue, ?_⟩
    split at enqueued
    · rename_i eligible
      obtain ⟨⟨root, flag'⟩, inserted, same⟩ := Option.map_eq_some_iff.mp enqueued
      cases same
      exact Or.inl ⟨by simpa [PsetThread.eligible] using eligible, root, inserted, rfl⟩
    · split at enqueued
      · rename_i bound
        cases enqueued
        exact Or.inr ⟨bound.1, bound.2, rfl, rfl⟩
      · cases enqueued

theorem Pset.processorEnqueue_inv (online : 0 < rtun.onlineProcessorCount) (inv : PsetInv rtun now p)
    (later : now.toNat ≤ ts.toNat) (noWrap : NoWrap rtun ts)
    (enqueued : p.processorEnqueue ctun rtun processor thread tailq headq ts = some (p', flag)) :
    PsetInv rtun ts p' := by
  obtain ⟨off, ⟨unbound, root, inserted, rfl⟩ | ⟨bound, inside, -, rfl⟩⟩ := Pset.processorEnqueue_cases enqueued
  · have stepped : hierarchyStep ctun rtun p.root (.threadInsert thread (p.threads thread).info tailq headq ts) =
        some root := by
      simp [hierarchyStep, inserted]
    obtain ⟨-, threads, -⟩ := Hierarchy.threadInsert_frame inserted
    exact inv.unboundMove online stepped later noWrap unbound (by simp [threads, PsetThread.hierarchyEntry, unbound])
  · exact inv.boundEnter later off bound inside tailq

end Enqueue

section Choose

variable {ctun : Tunables} {rtun : RootTunables} {now ts : UInt64} {p p' : Pset} {processor : Nat}
  {res : Option Nat}

theorem Pset.setBoundRunq_setRunq {rq : RunQueue Nat} {thread : Nat} {runq : Option Nat} :
    (p.setBoundRunq processor rq).setRunq thread runq = (p.setRunq thread runq).setBoundRunq processor rq := rfl

/-- `run_queue_dequeue` on a bound run queue counting a thread takes a thread at
level `highq`, bound to the processor: it is `run_queue_remove` of that thread. -/
theorem Pset.boundDequeue_spec (inv : PsetInv rtun now p) (held : (p.processors processor).runq.count ≠ 0) :
    ∃ t, (p.threads t).BoundOn processor ∧ (p.processors processor).runq.highq = (p.threads t).level ∧
      p.boundDequeue rtun processor = some ((p.setRunq t none).setBoundRunq processor
        (runQueueRemove nrqs rtun.priorityIsUrgent (p.processors processor).runq t (p.threads t).level), some t) := by
  have ok := inv.runq_ok processor
  obtain ⟨h, highq, nonempty⟩ := ok.highq_held held
  obtain ⟨-, t, -, taken, -, -⟩ := ok.dequeue true ⟨h, nonempty⟩
  obtain ⟨member, removed⟩ := Sched.runQueueDequeue_headq taken
  obtain ⟨boundOn, level⟩ := (inv.placement.bound_mem processor _ t).mp member
  have atLevel : (p.processors processor).runq.highq = (p.threads t).level := by omega
  refine ⟨t, boundOn, atLevel, ?_⟩
  unfold Pset.boundDequeue
  dsimp only
  rw [taken, removed, ← level]
  rfl

/-- `sched_clutch_thread_highest_remove` returns THREAD_NULL only from an empty
hierarchy, and otherwise takes an enqueued thread off, clearing its `runq`. -/
theorem Pset.clutchDequeue_cases (online : 0 < rtun.onlineProcessorCount) (inv : PsetInv rtun now p)
    (later : now.toNat ≤ ts.toNat) (noWrap : NoWrap rtun ts) (removed : p.clutchDequeue ctun rtun ts = some (p', res)) :
    ∃ root', hierarchyStep ctun rtun p.root (.threadHighestRemove ts) = some root' ∧
      ((res = none ∧ p.root.enqueued = ∅ ∧ root'.threads = p.root.threads ∧ p' = { p with root := root' }) ∨
        ∃ t info, res = some t ∧ p.root.threads t = some info ∧ root'.threads = Function.update p.root.threads t none ∧
          p' = ({ p with root := root' } : Pset).setRunq t none) := by
  unfold Pset.clutchDequeue at removed
  obtain ⟨⟨picked, root'⟩, highest, same⟩ := Option.map_eq_some_iff.mp removed
  refine ⟨root', by simp [hierarchyStep, highest], ?_⟩
  obtain ⟨r₁, -, -, ⟨rfl, rfl, idle⟩ | ⟨b, t, rfl, -, -, taken⟩⟩ :=
    Hierarchy.threadHighestRemove_cases online inv.root later noWrap highest
  · cases same
    exact Or.inl ⟨rfl, inv.root.enqueued_eq_empty_iff.mpr idle, rfl, rfl⟩
  · obtain ⟨info, found, threads, -⟩ := Hierarchy.threadRemove_frame taken
    cases same
    exact Or.inr ⟨t, info, rfl, found, threads, rfl⟩

/-- The branches of `sched_clutch_choose_thread`: THREAD_NULL when both queues
are below `priority` or both are empty; otherwise the bound run queue when it
holds a thread and the hierarchy holds none or no higher `scr_priority`, and
the hierarchy else. -/
theorem Pset.chooseThread_cases (chosen : p.chooseThread ctun rtun processor priority ts = some (p', res)) :
    let rq := (p.processors processor).runq
    (res = none ∧ p' = p ∧ ((rq.highq < priority ∧ p.root.priority.toInt < priority) ∨
        (rq.count = 0 ∧ p.root.thrCount = 0))) ∨
      (¬(rq.highq < priority ∧ p.root.priority.toInt < priority) ∧ rq.count ≠ 0 ∧
        (p.root.thrCount = 0 ∨ p.root.priority.toInt ≤ rq.highq) ∧ p.boundDequeue rtun processor = some (p', res)) ∨
      (¬(rq.highq < priority ∧ p.root.priority.toInt < priority) ∧ p.root.thrCount ≠ 0 ∧
        (rq.count = 0 ∨ rq.highq < p.root.priority.toInt) ∧ p.clutchDequeue ctun rtun ts = some (p', res)) := by
  intro rq
  unfold Pset.chooseThread at chosen
  dsimp only at chosen
  split at chosen
  · cases chosen
    exact Or.inl ⟨rfl, rfl, .inl ‹_›⟩
  · rename_i above
    split at chosen
    · cases chosen
      exact Or.inl ⟨rfl, rfl, .inr ‹_›⟩
    · rename_i busy
      split at chosen
      · -- both queues hold a thread: the higher priority wins, the bound run queue on a tie
        rename_i both
        split at chosen
        · rename_i higher
          exact Or.inr (Or.inl ⟨above, both.1, .inr (by simpa using higher), chosen⟩)
        · rename_i lower
          exact Or.inr (Or.inr ⟨above, both.2, .inr (by simpa using lower), chosen⟩)
      · rename_i notBoth
        split at chosen
        · rename_i bound
          exact Or.inr (Or.inl ⟨above, by simpa using bound, .inl (by simp_all), chosen⟩)
        · rename_i unbound
          exact Or.inr (Or.inr ⟨above, by simp_all, .inl (by simpa using unbound), chosen⟩)

theorem Pset.chooseThread_inv (online : 0 < rtun.onlineProcessorCount) (inv : PsetInv rtun now p)
    (later : now.toNat ≤ ts.toNat) (noWrap : NoWrap rtun ts)
    (chosen : p.chooseThread ctun rtun processor priority ts = some (p', res)) : PsetInv rtun ts p' := by
  obtain ⟨-, rfl, -⟩ | ⟨-, held, -, dequeued⟩ | ⟨-, -, -, dequeued⟩ := Pset.chooseThread_cases chosen
  · exact inv.mono later
  · obtain ⟨t, boundOn, -, taken⟩ := Pset.boundDequeue_spec inv held
    rw [taken, Option.some.injEq, Prod.mk.injEq] at dequeued
    obtain ⟨rfl, -⟩ := dequeued
    exact inv.boundLeave later boundOn
  · obtain ⟨root', stepped, ⟨-, -, threads, rfl⟩ | ⟨t, info, -, found, threads, rfl⟩⟩ :=
      Pset.clutchDequeue_cases online inv later noWrap dequeued
    · -- THREAD_NULL: the selection moved no thread
      obtain ⟨rootInv, priority⟩ := inv.afterHierarchyStep online stepped later noWrap
      exact ⟨rootInv, priority, inv.runq_ok, inv.placement.congr threads rfl fun _ => rfl⟩
    · obtain ⟨-, unbound, -⟩ := PsetThread.hierarchyEntry_eq_some.mp ((inv.placement.hierarchy t).symm.trans found)
      exact inv.unboundMove online stepped later noWrap unbound (by simp [threads, PsetThread.hierarchyEntry])

end Choose

section Remove

variable {ctun : Tunables} {rtun : RootTunables} {now ts : UInt64} {p p' : Pset} {processor thread : Nat}
  {flag : Bool}

/-- The branches of `sched_clutch_processor_queue_remove`: FALSE for a thread
on no queue; TRUE for a thread on the queue of `processor`, which leaves the
hierarchy when it is bound to no processor and `processor`'s run queue when it
is bound to it. -/
theorem Pset.processorQueueRemove_cases
    (removed : p.processorQueueRemove ctun rtun processor thread ts = some (p', flag)) :
    ((p.threads thread).runq = none ∧ flag = false ∧ p' = p) ∨
      ((p.threads thread).runq = some processor ∧ flag = true ∧
        (((p.threads thread).boundProcessor = none ∧ ∃ root',
            p.root.threadRemove ctun rtun thread ts false false = some root' ∧
            p' = ({ p with root := root' } : Pset).setRunq thread none) ∨
          ((p.threads thread).BoundOn processor ∧ p' = (p.setRunq thread none).setBoundRunq processor
            (runQueueRemove nrqs rtun.priorityIsUrgent (p.processors processor).runq thread (p.threads thread).level)))) := by
  unfold Pset.processorQueueRemove at removed
  dsimp only at removed
  split at removed
  · rename_i onQueue
    refine Or.inr ⟨onQueue, ?_⟩
    split at removed
    · rename_i eligible
      obtain ⟨root', taken, same⟩ := Option.map_eq_some_iff.mp removed
      cases same
      exact ⟨rfl, Or.inl ⟨by simpa [PsetThread.eligible] using eligible, root', taken, rfl⟩⟩
    · split at removed
      · rename_i bound
        cases removed
        exact ⟨rfl, Or.inr ⟨⟨onQueue, bound.1⟩, rfl⟩⟩
      · cases removed
  · split at removed
    · rename_i off
      cases removed
      exact Or.inl ⟨by simpa using off, rfl, rfl⟩
    · cases removed

theorem Pset.processorQueueRemove_inv (online : 0 < rtun.onlineProcessorCount) (inv : PsetInv rtun now p)
    (later : now.toNat ≤ ts.toNat) (noWrap : NoWrap rtun ts)
    (removed : p.processorQueueRemove ctun rtun processor thread ts = some (p', flag)) : PsetInv rtun ts p' := by
  obtain ⟨-, -, rfl⟩ | ⟨-, -, ⟨unbound, root', taken, rfl⟩ | ⟨boundOn, rfl⟩⟩ :=
    Pset.processorQueueRemove_cases removed
  · exact inv.mono later
  · obtain ⟨-, -, threads, -⟩ := Hierarchy.threadRemove_frame taken
    exact inv.unboundMove online (e := .threadRemove thread false false ts) taken later noWrap unbound
      (by simp [threads, PsetThread.hierarchyEntry])
  · exact inv.boundLeave later boundOn

end Remove

section Others

variable {ctun : Tunables} {rtun : RootTunables} {now ts : UInt64} {p p' : Pset}

theorem Pset.threadUpdate_inv (inv : PsetInv rtun now p) (later : now.toNat ≤ ts.toNat) {thread : Nat}
    {info : HierarchyThread} {boundProcessor : Option Nat} (updated : p.threadUpdate thread info boundProcessor = some p') :
    PsetInv rtun ts p' := by
  unfold Pset.threadUpdate at updated
  split at updated
  · cases updated
  · rename_i onQueue
    cases updated
    exact ⟨inv.root.mono later, inv.priority, inv.runq_ok,
      inv.placement.updateOff (Option.not_isSome_iff_eq_none.mp onQueue) rfl⟩

theorem Pset.processorSwitch_inv (inv : PsetInv rtun now p) (later : now.toNat ≤ ts.toNat) (processor : Nat)
    (currentPri : Int) (firstTimeslice : Bool) (activeThread : Option Nat) :
    PsetInv rtun ts (p.processorSwitch processor currentPri firstTimeslice activeThread) := by
  have runqs : ∀ q, ((p.processorSwitch processor currentPri firstTimeslice activeThread).processors q).runq =
      (p.processors q).runq := fun q => by
    by_cases here : q = processor
    · subst here
      simp [Pset.processorSwitch]
    · simp [Pset.processorSwitch, here]
  exact ⟨inv.root.mono later, inv.priority, fun q => runqs q ▸ inv.runq_ok q, inv.placement.congr rfl rfl runqs⟩

/-- An accounting call moves no thread. -/
theorem Pset.rootStep_inv (online : 0 < rtun.onlineProcessorCount) (inv : PsetInv rtun now p) {e : HierarchyEvent}
    (later : now.toNat ≤ e.timestamp.toNat) (noWrap : NoWrap rtun e.timestamp)
    (same : ∀ s s', EnqueuedStep s e s' → s' = s) (stepped : p.rootStep ctun rtun e = some p') :
    PsetInv rtun e.timestamp p' := by
  obtain ⟨root', rootStepped, rfl⟩ := Option.map_eq_some_iff.mp stepped
  obtain ⟨rootInv, priority⟩ := inv.afterHierarchyStep online rootStepped later noWrap
  have threads := same _ _ (hierarchyStep_refines online inv.root later noWrap rootStepped)
  exact ⟨rootInv, priority, inv.runq_ok, inv.placement.congr threads rfl fun _ => rfl⟩

end Others

section Run

variable {ctun : Tunables} {rtun : RootTunables}

/-- `sched_clutch_pset_init` and `sched_clutch_processor_init`: nothing queued,
and every count zero. -/
theorem psetInit_inv (tgPriority : Nat → TgPriority) (processors : Nat → Processor) (threads : Nat → PsetThread) :
    PsetInv rtun 0 (psetInit ctun rtun tgPriority processors threads) := by
  refine ⟨hierarchyInit_inv tgPriority, iff_of_true rfl (by simp [Hierarchy.enqueued, psetInit, hierarchyInit]),
    fun _ => Sched.runQueueInit_ok, ⟨fun t => ?_, fun q pri t => ?_, fun q pri => ?_, fun t q q' onQueue => ?_⟩⟩
  · simp [psetInit, hierarchyInit, PsetThread.hierarchyEntry]
  · simp [psetInit, Sched.runQueueInit, PsetThread.BoundOn]
  · simp [psetInit, Sched.runQueueInit]
  · simp [psetInit] at onQueue

/-- Each call, at a timestamp no earlier than `now` where no deadline wraps,
keeps the invariant. -/
theorem psetStep_inv (online : 0 < rtun.onlineProcessorCount) {now : UInt64} {p p' : Pset}
    (inv : PsetInv rtun now p) {e : PsetEvent} (later : now.toNat ≤ e.timestamp.toNat)
    (noWrap : NoWrap rtun e.timestamp) (stepped : psetStep ctun rtun p e = some p') : PsetInv rtun e.timestamp p' := by
  cases e with
  | processorEnqueue processor thread tailq headq timestamp =>
    obtain ⟨⟨p'', flag⟩, enqueued, rfl⟩ := Option.map_eq_some_iff.mp stepped
    exact Pset.processorEnqueue_inv online inv later noWrap enqueued
  | chooseThread processor priority timestamp =>
    obtain ⟨⟨p'', res⟩, chosen, rfl⟩ := Option.map_eq_some_iff.mp stepped
    exact Pset.chooseThread_inv online inv later noWrap chosen
  | processorQueueRemove processor thread timestamp =>
    obtain ⟨⟨p'', flag⟩, removed, rfl⟩ := Option.map_eq_some_iff.mp stepped
    exact Pset.processorQueueRemove_inv online inv later noWrap removed
  | threadUpdate thread info boundProcessor timestamp => exact Pset.threadUpdate_inv inv later stepped
  | processorSwitch processor currentPri firstTimeslice activeThread timestamp =>
    cases stepped
    exact Pset.processorSwitch_inv inv later processor currentPri firstTimeslice activeThread
  | cpuUsageUpdate x delta timestamp =>
    exact Pset.rootStep_inv online inv (e := .cpuUsageUpdate x delta timestamp) later noWrap
      (fun _ _ step => by cases step; rfl) stepped
  | runBucketIncr x timestamp =>
    exact Pset.rootStep_inv online inv (e := .runBucketIncr x timestamp) later noWrap
      (fun _ _ step => by cases step; rfl) stepped
  | runBucketDecr x timestamp =>
    exact Pset.rootStep_inv online inv (e := .runBucketDecr x timestamp) later noWrap
      (fun _ _ step => by cases step; rfl) stepped

/-- The rule for runs: a relation between the start and the end of a run that
holds of the empty run, and that one call in front keeps from a processor set
that keeps the invariant, holds of every run whose timestamps never go back
and where no deadline wraps; the invariant holds at its end. -/
theorem psetRun_induction (online : 0 < rtun.onlineProcessorCount)
    (Q : Pset → List PsetEvent → Pset → Prop) (nil : ∀ p, Q p [] p)
    (cons : ∀ {now : UInt64} {p p' p'' : Pset} {e : PsetEvent} {events : List PsetEvent},
      PsetInv rtun now p → now.toNat ≤ e.timestamp.toNat → NoWrap rtun e.timestamp →
      psetStep ctun rtun p e = some p' → Q p' events p'' → Q p (e :: events) p'')
    {ts : UInt64} :
    ∀ {events : List PsetEvent} {now : UInt64} {p p' : Pset}, PsetInv rtun now p → now.toNat ≤ ts.toNat →
      (∀ e ∈ events, now.toNat ≤ e.timestamp.toNat ∧ e.timestamp.toNat ≤ ts.toNat ∧ NoWrap rtun e.timestamp) →
      events.Pairwise (fun e e' => e.timestamp.toNat ≤ e'.timestamp.toNat) →
      psetRun ctun rtun p events = some p' → PsetInv rtun ts p' ∧ Q p events p'
  | [], _, _, _, inv, later, _, _, ran => by
    cases ran
    exact ⟨inv.mono later, nil _⟩
  | e :: events, _, _, _, inv, _, timed, ordered, ran => by
    obtain ⟨after, upTo, noWrap⟩ := timed e List.mem_cons_self
    obtain ⟨stepped, stepOk, rest⟩ := Option.bind_eq_some_iff.mp ran
    have ordered' := List.pairwise_cons.mp ordered
    -- the rest of the run starts at the call's own timestamp
    have timed' : ∀ e' ∈ events,
        e.timestamp.toNat ≤ e'.timestamp.toNat ∧ e'.timestamp.toNat ≤ ts.toNat ∧ NoWrap rtun e'.timestamp :=
      fun e' member => ⟨ordered'.1 e' member, (timed e' (List.mem_cons_of_mem e member)).2⟩
    obtain ⟨inv', holds⟩ := psetRun_induction online Q nil cons
      (psetStep_inv online inv after noWrap stepOk) upTo timed' ordered'.2 rest
    exact ⟨inv', cons inv after noWrap stepOk holds⟩

variable (ctun rtun) in
/-- What a run from `sched_clutch_pset_init` can leave by `now`: the calls'
timestamps never go back, none is past `now`, and no deadline wraps at any. -/
def PsetReachable (now : UInt64) (p : Pset) : Prop :=
  ∃ (tgPriority : Nat → TgPriority) (processors : Nat → Processor) (threads : Nat → PsetThread)
    (events : List PsetEvent),
    psetRun ctun rtun (psetInit ctun rtun tgPriority processors threads) events = some p ∧
      events.Pairwise (fun e e' => e.timestamp.toNat ≤ e'.timestamp.toNat) ∧
      ∀ e ∈ events, e.timestamp.toNat ≤ now.toNat ∧ NoWrap rtun e.timestamp

theorem PsetReachable.inv (online : 0 < rtun.onlineProcessorCount) {now : UInt64} {p : Pset}
    (reach : PsetReachable ctun rtun now p) : PsetInv rtun now p := by
  obtain ⟨tgPriority, processors, threads, events, run, ordered, timed⟩ := reach
  exact (psetRun_induction online (fun _ _ _ => True) (fun _ => trivial) (fun _ _ _ _ _ => trivial)
    (psetInit_inv tgPriority processors threads) (Nat.zero_le _) (fun e member => ⟨Nat.zero_le _, timed e member⟩)
    ordered run).1

variable (ctun rtun) in
/-- On every reachable processor set: the hierarchy holds exactly the threads
on a queue and bound to no processor, with their fields; the run queue of
processor `q` holds exactly the threads bound to `q` whose `runq` is `q`, each
once and at its `sched_pri`; and a thread on a queue is bound to no processor
or to the one whose queue it is on. -/
theorem psetReachable_placement (online : 0 < rtun.onlineProcessorCount) {now : UInt64} {p : Pset}
    (reach : PsetReachable ctun rtun now p) :
    (∀ t, p.root.threads t = (p.threads t).hierarchyEntry) ∧
      (∀ q pri t, t ∈ (p.processors q).runq.queues pri ↔ (p.threads t).BoundOn q ∧ pri = (p.threads t).level) ∧
      (∀ q pri, ((p.processors q).runq.queues pri).Nodup) ∧
      ∀ t q, (p.threads t).runq = some q →
        (p.threads t).boundProcessor = none ∨ (p.threads t).boundProcessor = some q := by
  have ok := (reach.inv online).placement
  refine ⟨ok.hierarchy, ok.bound_mem, ok.bound_nodup, fun t q onQueue => ?_⟩
  cases bound : (p.threads t).boundProcessor with
  | none => exact .inl rfl
  | some q' => exact .inr (by rw [ok.runq_bound t q q' onQueue bound])

/-- Two processors that are their own primaries, each running a thread at
priority 31 in its first timeslice. -/
def sampleProcessors (processor : Nat) : Processor := ⟨Sched.runQueueInit, processor, 31, true, some (20 + processor)⟩

/-- A foreground thread and an in-bucket thread of two thread groups bound to
no processor, and a default-bucket thread bound to processor 1. -/
def sampleThreads : Nat → PsetThread
  | 10 => ⟨⟨⟨31, 31, false⟩, 1, .shareFg⟩, none, none⟩
  | 11 => ⟨⟨⟨50, 50, false⟩, 3, .shareDf⟩, some 1, none⟩
  | 12 => ⟨⟨⟨47, 47, false⟩, 2, .shareIn⟩, none, none⟩
  | _ => ⟨⟨⟨4, 4, false⟩, 0, .shareBg⟩, none, none⟩

/-- The three threads made runnable, with the CPU usage of the first group
updated in between. -/
def samplePsetEvents : List PsetEvent :=
  [.processorEnqueue 0 10 true false 100, .processorEnqueue 1 11 true false 150, .cpuUsageUpdate 7 2400 175,
    .processorEnqueue 0 12 true false 200]

/-- The processor set the sample run leaves, on the 24 MHz tunables. -/
def samplePset : Pset :=
  (psetRun tunables24MHz rootTunables24MHz
    (psetInit tunables24MHz rootTunables24MHz (fun _ => .med) sampleProcessors sampleThreads) samplePsetEvents).getD
    (psetInit tunables24MHz rootTunables24MHz (fun _ => .med) sampleProcessors sampleThreads)

theorem samplePset_run :
    psetRun tunables24MHz rootTunables24MHz
      (psetInit tunables24MHz rootTunables24MHz (fun _ => .med) sampleProcessors sampleThreads) samplePsetEvents =
      some samplePset := by
  have ran : (psetRun tunables24MHz rootTunables24MHz
      (psetInit tunables24MHz rootTunables24MHz (fun _ => .med) sampleProcessors sampleThreads)
      samplePsetEvents).isSome = true := by
    decide
  obtain ⟨p, found⟩ := Option.isSome_iff_exists.mp ran
  simp [samplePset, found]

theorem samplePsetEvents_timed :
    ∀ e ∈ samplePsetEvents, e.timestamp.toNat ≤ (300 : UInt64).toNat ∧ NoWrap rootTunables24MHz e.timestamp := by
  intro e member
  simp only [samplePsetEvents, List.mem_cons, List.not_mem_nil, or_false] at member
  rcases member with rfl | rfl | rfl | rfl <;> exact ⟨by decide, rootTunables24MHz_noWrap (by decide)⟩

theorem samplePset_reachable : PsetReachable tunables24MHz rootTunables24MHz 300 samplePset :=
  ⟨fun _ => .med, sampleProcessors, sampleThreads, samplePsetEvents, samplePset_run, by decide, samplePsetEvents_timed⟩

theorem psetReachable_placement_sample :
    (∀ t, samplePset.root.threads t = (samplePset.threads t).hierarchyEntry) ∧
      (∀ q pri t, t ∈ (samplePset.processors q).runq.queues pri ↔
        (samplePset.threads t).BoundOn q ∧ pri = (samplePset.threads t).level) ∧
      (∀ q pri, ((samplePset.processors q).runq.queues pri).Nodup) ∧
      ∀ t q, (samplePset.threads t).runq = some q →
        (samplePset.threads t).boundProcessor = none ∨ (samplePset.threads t).boundProcessor = some q :=
  psetReachable_placement tunables24MHz rootTunables24MHz (by decide) samplePset_reachable

end Run

end Xnu.Clutch
