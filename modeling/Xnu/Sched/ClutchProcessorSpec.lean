import Xnu.Sched.ClutchProcessorCorrect
import Xnu.Sched.ClutchThreadReturns

namespace Xnu.Clutch

open Sched (RunQueue runQueueEnqueue runQueueDequeue runQueueRemove)

/-! What each processor operation does on a processor set that keeps the
invariant, in terms of the threads queued for the processor: which thread
`sched_clutch_choose_thread` takes, what `sched_clutch_processor_enqueue` and
`sched_clutch_processor_queue_remove` move and return, and what the queries
report. The calls fault only where the hierarchy's own routines do. -/

section Queued

variable {rtun : RootTunables} {now : UInt64} {h : Hierarchy} {p : Pset} {processor t : Nat}

/-- The hierarchy counts no thread exactly when it holds none. -/
theorem HierarchyInv.thrCount_eq_zero_iff (inv : HierarchyInv rtun now h) : h.thrCount = 0 ↔ ∀ t, h.threads t = none := by
  rw [← UInt16.toNat_inj, UInt16.toNat_zero, inv.threads_inv.thr_count, Set.ncard_eq_zero inv.threads_inv.finite,
    Set.eq_empty_iff_forall_notMem]
  simp [Hierarchy.enqueued]

/-- A thread queued for a processor is in the hierarchy, or on the processor's
own run queue. -/
theorem Placement.queuedFor_iff (ok : Placement p) :
    p.QueuedFor processor t ↔ (p.root.threads t).isSome ∨ (p.threads t).BoundOn processor := by
  rw [ok.hierarchy t]
  constructor
  · rintro ⟨onQueue, unbound | bound⟩
    · exact .inl (by simp [PsetThread.hierarchyEntry, onQueue, unbound])
    · obtain ⟨q, atQ⟩ := Option.isSome_iff_exists.mp onQueue
      have same := ok.runq_bound t q processor atQ bound
      exact .inr ⟨same ▸ atQ, bound⟩
  · rintro (entry | ⟨onQueue, bound⟩)
    · obtain ⟨info, found⟩ := Option.isSome_iff_exists.mp entry
      obtain ⟨onQueue, unbound, -⟩ := PsetThread.hierarchyEntry_eq_some.mp found
      exact ⟨onQueue, .inl unbound⟩
    · exact ⟨by simp [onQueue], .inr bound⟩

/-- A bound run queue counts no thread exactly when no thread is on it. -/
theorem Placement.boundCount_eq_zero_iff (ok : Placement p)
    (runqOk : RunQueue.Ok nrqs rtun.priorityIsUrgent (p.processors processor).runq) :
    (p.processors processor).runq.count = 0 ↔ ∀ t, ¬(p.threads t).BoundOn processor := by
  rw [runqOk.count_eq_zero_iff]
  constructor
  · intro empty t boundOn
    have member := (ok.bound_mem processor _ t).mpr ⟨boundOn, rfl⟩
    rw [empty] at member
    cases member
  · intro unqueued pri
    exact List.eq_nil_iff_forall_not_mem.mpr fun t member => unqueued t ((ok.bound_mem processor pri t).mp member).1

/-- Nothing is queued for a processor exactly when its run queue and the
hierarchy count no thread. -/
theorem PsetInv.nothingQueued_iff (inv : PsetInv rtun now p) :
    (∀ t, ¬p.QueuedFor processor t) ↔ (p.processors processor).runq.count = 0 ∧ p.root.thrCount = 0 := by
  rw [inv.placement.boundCount_eq_zero_iff (inv.runq_ok processor), inv.root.thrCount_eq_zero_iff]
  simp only [inv.placement.queuedFor_iff, not_or, Option.not_isSome_iff_eq_none]
  exact ⟨fun none => ⟨fun t => (none t).2, fun t => (none t).1⟩, fun none t => ⟨none.2 t, none.1 t⟩⟩

end Queued

section ChooseSpec

variable {ctun : Tunables} {rtun : RootTunables} {now ts : UInt64} {p p' : Pset} {processor : Nat}
  {priority : Int} {res : Option Nat}

/-- `sched_clutch_choose_thread` faults only where
`sched_clutch_thread_highest_remove` does: `run_queue_dequeue` on a run queue
counting a thread finds one. -/
theorem Pset.chooseThread_none (inv : PsetInv rtun now p)
    (faulted : p.chooseThread ctun rtun processor priority ts = none) :
    p.root.threadHighestRemove ctun rtun ts = none := by
  have bound : (p.processors processor).runq.count ≠ 0 → p.boundDequeue rtun processor ≠ none := fun held => by
    obtain ⟨t, -, -, taken⟩ := Pset.boundDequeue_spec inv held
    rw [taken]
    exact Option.some_ne_none _
  have clutch : p.clutchDequeue ctun rtun ts = none → p.root.threadHighestRemove ctun rtun ts = none :=
    Option.map_eq_none_iff.mp
  unfold Pset.chooseThread at faulted
  dsimp only at faulted
  split_ifs at faulted with below idle both pick pick'
  · exact absurd faulted (bound both.1)
  · exact clutch faulted
  · exact absurd faulted (bound (by simpa using pick'))
  · exact clutch faulted

/-- What `sched_clutch_choose_thread` returns when it returns. -/
theorem Pset.chooseThread_result (online : 0 < rtun.onlineProcessorCount) (inv : PsetInv rtun now p)
    (later : now.toNat ≤ ts.toNat) (noWrap : NoWrap rtun ts)
    (chosen : p.chooseThread ctun rtun processor priority ts = some (p', res)) :
    (res = none ↔ (∀ t, ¬p.QueuedFor processor t) ∨
        ((p.processors processor).runq.highq < priority ∧ p.root.priority.toInt < priority)) ∧
      (res = none → p'.threads = p.threads) ∧
      ∀ t ∈ res, p.QueuedFor processor t ∧ p'.threads = Function.update p.threads t { p.threads t with runq := none } ∧
        ((p.threads t).boundProcessor = some processor →
          ∀ u, (p.threads u).BoundOn processor → (p.threads u).level ≤ (p.threads t).level) := by
  have nothing : (∀ t, ¬p.QueuedFor processor t) ↔ (p.processors processor).runq.count = 0 ∧ p.root.thrCount = 0 :=
    inv.nothingQueued_iff
  obtain ⟨rfl, rfl, idle⟩ | ⟨above, held, -, dequeued⟩ | ⟨above, busy, -, dequeued⟩ := Pset.chooseThread_cases chosen
  · -- THREAD_NULL before either queue is read
    refine ⟨iff_of_true rfl ?_, fun _ => rfl, fun t member => absurd member (Option.not_mem_none t)⟩
    rcases idle with below | empty
    · exact .inr below
    · exact .inl (nothing.mpr empty)
  · obtain ⟨t, boundOn, atTop, taken⟩ := Pset.boundDequeue_spec inv held
    rw [taken, Option.some.injEq, Prod.mk.injEq] at dequeued
    obtain ⟨rfl, rfl⟩ := dequeued
    refine ⟨iff_of_false (Option.some_ne_none t) ?_, fun taken => absurd taken (Option.some_ne_none t), fun t' member => ?_⟩
    · rintro (none | below)
      · exact held (nothing.mp none).1
      · exact above below
    · rw [Option.mem_some_iff] at member
      subst member
      refine ⟨inv.placement.queuedFor_iff.mpr (.inr boundOn), rfl, fun _ u boundOn' => ?_⟩
      -- the thread came from level `highq`, which no thread on the run queue exceeds
      have member := (inv.placement.bound_mem processor _ u).mpr ⟨boundOn', rfl⟩
      have below := (inv.runq_ok processor).le_highq (List.ne_nil_of_mem member)
      omega
  · obtain ⟨root', -, ⟨rfl, empty, -, -⟩ | ⟨t, info, rfl, found, -, rfl⟩⟩ :=
      Pset.clutchDequeue_cases online inv later noWrap dequeued
    · -- a hierarchy counting a thread is not empty
      refine absurd (inv.root.thrCount_eq_zero_iff.mpr fun t => ?_) busy
      exact Option.not_isSome_iff_eq_none.mp fun enqueued => (Set.eq_empty_iff_forall_notMem.mp empty) t enqueued
    · refine ⟨iff_of_false (Option.some_ne_none t) ?_, fun taken => absurd taken (Option.some_ne_none t),
        fun t' member => ?_⟩
      · rintro (none | below)
        · exact busy (nothing.mp none).2
        · exact above below
      · rw [Option.mem_some_iff] at member
        subst member
        obtain ⟨-, unbound, -⟩ := PsetThread.hierarchyEntry_eq_some.mp ((inv.placement.hierarchy t).symm.trans found)
        refine ⟨inv.placement.queuedFor_iff.mpr (.inl (by simp [found])), rfl, fun bound => ?_⟩
        rw [unbound] at bound
        cases bound

/-- `sched_clutch_choose_thread` returns THREAD_NULL exactly when nothing is
queued for the processor or both its queues are below `priority`, and
otherwise takes a thread queued for the processor off its queue and moves no
other; one from the processor's run queue has the highest `sched_pri` there.
Its own asserts hold: it faults only where `sched_clutch_thread_highest_remove`
does. -/
theorem Pset.chooseThread_spec (online : 0 < rtun.onlineProcessorCount) (inv : PsetInv rtun now p)
    (later : now.toNat ≤ ts.toNat) (noWrap : NoWrap rtun ts) :
    (∃ p' res, p.chooseThread ctun rtun processor priority ts = some (p', res) ∧
      (res = none ↔ (∀ t, ¬p.QueuedFor processor t) ∨
        ((p.processors processor).runq.highq < priority ∧ p.root.priority.toInt < priority)) ∧
      (res = none → p'.threads = p.threads) ∧
      ∀ t ∈ res, p.QueuedFor processor t ∧ p'.threads = Function.update p.threads t { p.threads t with runq := none } ∧
        ((p.threads t).boundProcessor = some processor →
          ∀ u, (p.threads u).BoundOn processor → (p.threads u).level ≤ (p.threads t).level)) ∨
      p.root.threadHighestRemove ctun rtun ts = none := by
  cases chosen : p.chooseThread ctun rtun processor priority ts with
  | none => exact .inr (Pset.chooseThread_none inv chosen)
  | some result => exact .inl ⟨result.1, result.2, rfl, Pset.chooseThread_result online inv later noWrap chosen⟩

/-- `sched_clutch_choose_thread` returns on a processor set that keeps the
invariant, unless the hierarchy's highest removal takes a thread whose clutch
bucket keeps threads and their priority calculation faults. -/
theorem Pset.chooseThread_returns (online : 0 < rtun.onlineProcessorCount) (inv : PsetInv rtun now p)
    (later : now.toNat ≤ ts.toNat) (noWrap : NoWrap rtun ts) :
    (∃ res, p.chooseThread ctun rtun processor priority ts = some res) ∨
      ∃ t info runq, p.root.threads t = some info ∧ p.root.threadRunqs info.clutchBucket = some runq ∧
        (p.root.threadUnlink rtun t info runq ts ((p.root.clutchBuckets info.clutchBucket).thrCount - 1)
          (p.root.thrCount - 1)).priCalculateFaults ctun info.clutchBucket ts = true := by
  cases chosen : p.chooseThread ctun rtun processor priority ts with
  | some res => exact .inl ⟨res, rfl⟩
  | none =>
    have faulted := Pset.chooseThread_none inv chosen
    exact .inr ((Hierarchy.threadHighestRemove_returns online inv.root later noWrap).resolve_left
      fun ⟨_, returned⟩ => by simp [faulted] at returned)

/-- Processor 1 takes its bound thread, the highest on its run queue and above
the hierarchy's priority. -/
theorem Pset.chooseThread_spec_sample :
    (∃ p' res, samplePset.chooseThread tunables24MHz rootTunables24MHz 1 0 300 = some (p', res) ∧
      (res = none ↔ (∀ t, ¬samplePset.QueuedFor 1 t) ∨
        ((samplePset.processors 1).runq.highq < 0 ∧ samplePset.root.priority.toInt < 0)) ∧
      (res = none → p'.threads = samplePset.threads) ∧
      ∀ t ∈ res, samplePset.QueuedFor 1 t ∧
        p'.threads = Function.update samplePset.threads t { samplePset.threads t with runq := none } ∧
        ((samplePset.threads t).boundProcessor = some 1 →
          ∀ u, (samplePset.threads u).BoundOn 1 → (samplePset.threads u).level ≤ (samplePset.threads t).level)) ∨
      samplePset.root.threadHighestRemove tunables24MHz rootTunables24MHz 300 = none :=
  Pset.chooseThread_spec (by decide) (samplePset_reachable.inv (by decide)) (le_refl _) (rootTunables24MHz_noWrap (by decide))

end ChooseSpec

section Counts

variable {rtun : RootTunables} {now : UInt64} {h : Hierarchy} {p : Pset} {processor : Nat}

/-- The threads on the run queue of `processor`. -/
theorem Placement.boundQueued_eq (ok : Placement p) (q : Nat) :
    {t | ∃ pri, t ∈ (p.processors q).runq.queues pri} = {t | (p.threads t).BoundOn q} := by
  ext t
  simp only [Set.mem_ofPred_eq, ok.bound_mem]
  exact ⟨fun ⟨_, boundOn, _⟩ => boundOn, fun boundOn => ⟨_, boundOn, rfl⟩⟩

/-- A processor's run queue counts the threads on it. -/
theorem PsetInv.boundCount_eq_ncard (inv : PsetInv rtun now p) (q : Nat) :
    (p.processors q).runq.count = ({t | (p.threads t).BoundOn q}.ncard : Int) := by
  -- a thread sits at its own `sched_pri` only
  have single : ∀ t pri pri', t ∈ (p.processors q).runq.queues pri → t ∈ (p.processors q).runq.queues pri' →
      pri = pri' := fun t pri pri' atPri atPri' =>
    ((inv.placement.bound_mem q pri t).mp atPri).2.trans ((inv.placement.bound_mem q pri' t).mp atPri').2.symm
  rw [(inv.runq_ok q).count_eq_ncard (inv.placement.bound_nodup q) single, inv.placement.boundQueued_eq]

/-- The threads queued for a processor: the hierarchy's, and those on its run
queue, which are bound to it and so are not in the hierarchy. -/
theorem PsetInv.queuedFor_eq_union (inv : PsetInv rtun now p) :
    {t | p.QueuedFor processor t} = p.root.enqueued ∪ {t | (p.threads t).BoundOn processor} := by
  ext t
  exact inv.placement.queuedFor_iff

theorem PsetInv.queuedFor_disjoint (inv : PsetInv rtun now p) :
    Disjoint p.root.enqueued {t | (p.threads t).BoundOn processor} := by
  rw [Set.disjoint_left]
  intro t enqueued boundOn
  obtain ⟨info, found⟩ := Option.isSome_iff_exists.mp enqueued
  obtain ⟨-, unbound, -⟩ := PsetThread.hierarchyEntry_eq_some.mp ((inv.placement.hierarchy t).symm.trans found)
  rw [boundOn.2] at unbound
  cases unbound

end Counts

section UrgencyWidth

/-- `scr_urgency` read as a `uint32_t` is zero exactly when it is. -/
theorem int16_toInt32_toUInt32_eq_zero (x : Int16) : x.toInt32.toUInt32 = 0 ↔ x = 0 := by
  constructor
  · intro zero
    have signed : x.toInt32 = 0 := by simpa using congrArg UInt32.toInt32 zero
    rw [← Int32.toInt_inj, Int16.toInt_toInt32] at signed
    exact Int16.toInt_inj.mp (by simpa using signed)
  · rintro rfl
    rfl

/-- A count below `2^16` is zero as an `int16_t` exactly when it is zero. -/
theorem int16_ofNat_eq_zero {n : Nat} (small : n < 65536) : Int16.ofNat n = 0 ↔ n = 0 := by
  rw [← Int16.toBitVec_inj]
  simp only [Int16.toBitVec_ofNat', Int16.toBitVec_zero]
  rw [← BitVec.toNat_inj, BitVec.toNat_ofNat, BitVec.toNat_zero]
  omega

variable {rtun : RootTunables} {now : UInt64} {h : Hierarchy}

/-- `sched_clutch_root_urgency` is nonzero exactly when an urgent thread is
enqueued: `scr_urgency` counts them modulo `2^16`, and the `uint16_t`
`scr_thr_count` keeps their number below `2^16`. -/
theorem HierarchyInv.rootUrgency_pos_iff (inv : HierarchyInv rtun now h) :
    0 < h.rootUrgency ↔ ∃ t info, h.threads t = some info ∧ rtun.priorityIsUrgent info.pri.schedPri.toNat = true := by
  have subset : h.urgentThreads rtun.priorityIsUrgent ⊆ h.enqueued := fun t ⟨info, found, _⟩ => by
    simp [Hierarchy.enqueued, found]
  have bounded : (h.urgentThreads rtun.priorityIsUrgent).ncard < 65536 :=
    calc (h.urgentThreads rtun.priorityIsUrgent).ncard
        ≤ h.enqueued.ncard := Set.ncard_le_ncard subset inv.threads_inv.finite
      _ = h.thrCount.toNat := inv.threads_inv.thr_count.symm
      _ < 65536 := h.thrCount.toNat_lt
  rw [UInt32.pos_iff_ne_zero, Ne, Hierarchy.rootUrgency, int16_toInt32_toUInt32_eq_zero, inv.threads_inv.urgency,
    int16_ofNat_eq_zero bounded, Set.ncard_eq_zero (inv.threads_inv.urgent_finite)]
  simp [Set.eq_empty_iff_forall_notMem, Hierarchy.urgentThreads]

variable {ctun : Tunables} in
/-- On every reachable hierarchy, `sched_clutch_root_urgency`, which
`sched_clutch_processor_csw_check` compares with 0, is positive exactly when an
urgent thread is enqueued, although the `int16_t` `scr_urgency` wraps past
32767 urgent threads: the `uint32_t` it is read as is nonzero exactly when
`scr_urgency` is, and the `uint16_t` thread count keeps the urgent threads
below `2^16`. -/
theorem hierarchyReachable_rootUrgency (online : 0 < rtun.onlineProcessorCount)
    (reach : HierarchyReachable ctun rtun now h) :
    0 < h.rootUrgency ↔ ∃ t info, h.threads t = some info ∧ rtun.priorityIsUrgent info.pri.schedPri.toNat = true :=
  (reach.inv online).rootUrgency_pos_iff

theorem hierarchyReachable_rootUrgency_sample :
    0 < sampleHierarchy.rootUrgency ↔ ∃ t info, sampleHierarchy.threads t = some info ∧
      rootTunables24MHz.priorityIsUrgent info.pri.schedPri.toNat = true :=
  hierarchyReachable_rootUrgency (by decide) sampleHierarchy_reachable

end UrgencyWidth

section Queries

variable {rtun : RootTunables} {now : UInt64} {p : Pset} {processor : Nat}

/-- `sched_clutch_runq_count` counts the threads queued for the processor,
`sched_clutch_processor_bound_count` those on its own run queue, and
`sched_clutch_processor_queue_empty` holds exactly when none is queued for it. -/
theorem Pset.runqCount_spec (inv : PsetInv rtun now p) :
    p.runqCount processor = ({t | p.QueuedFor processor t}.ncard : Int) ∧
      p.processorBoundCount processor = ({t | (p.threads t).BoundOn processor}.ncard : Int) ∧
      (p.processorQueueEmpty processor = true ↔ ∀ t, ¬p.QueuedFor processor t) := by
  have bound := inv.boundCount_eq_ncard processor
  have boundFinite : {t | (p.threads t).BoundOn processor}.Finite := by
    rw [← inv.placement.boundQueued_eq]
    exact (inv.runq_ok processor).queued_finite
  refine ⟨?_, bound, ?_⟩
  · rw [Pset.runqCount, inv.queuedFor_eq_union,
      Set.ncard_union_eq inv.queuedFor_disjoint inv.root.threads_inv.finite boundFinite, Nat.cast_add,
      ← inv.root.threads_inv.thr_count, bound]
  · rw [inv.nothingQueued_iff]
    simp [Pset.processorQueueEmpty, and_comm]

theorem Pset.runqCount_spec_sample :
    samplePset.runqCount 1 = ({t | samplePset.QueuedFor 1 t}.ncard : Int) ∧
      samplePset.processorBoundCount 1 = ({t | (samplePset.threads t).BoundOn 1}.ncard : Int) ∧
      (samplePset.processorQueueEmpty 1 = true ↔ ∀ t, ¬samplePset.QueuedFor 1 t) :=
  Pset.runqCount_spec (samplePset_reachable.inv (by decide))

/-- For a priority `n ≥ 0`, the run queue of `processor` reaches `n` exactly
when a thread on it does. -/
theorem PsetInv.le_highq_iff (inv : PsetInv rtun now p) {n : Int} (nonneg : 0 ≤ n) :
    n ≤ (p.processors processor).runq.highq ↔ ∃ t, (p.threads t).BoundOn processor ∧ n ≤ (p.threads t).level := by
  constructor
  · intro reached
    rcases (inv.runq_ok processor).highq_spec with ⟨none, -⟩ | ⟨h, highq, -, held, -⟩
    · rw [none, Sched.noPri] at reached
      omega
    · obtain ⟨t, member⟩ := List.exists_mem_of_ne_nil _ held
      obtain ⟨boundOn, level⟩ := (inv.placement.bound_mem processor h t).mp member
      exact ⟨t, boundOn, by rw [← level]; omega⟩
  · rintro ⟨t, boundOn, reached⟩
    have member := (inv.placement.bound_mem processor _ t).mpr ⟨boundOn, rfl⟩
    exact reached.trans ((inv.runq_ok processor).le_highq (List.ne_nil_of_mem member))

/-- `sched_clutch_processor_queue_has_priority(processor, priority, gte)`, for a
priority at least 0: `scr_priority`, or the `sched_pri` of a thread on the
processor's run queue, is at least (`gte`) or above `priority`. -/
theorem Pset.processorQueueHasPriority_spec (inv : PsetInv rtun now p) {priority : Int} (nonneg : 0 ≤ priority) :
    (p.processorQueueHasPriority processor priority true = true ↔
        priority ≤ p.root.priority.toInt ∨ ∃ t, (p.threads t).BoundOn processor ∧ priority ≤ (p.threads t).level) ∧
      (p.processorQueueHasPriority processor priority false = true ↔
        priority < p.root.priority.toInt ∨ ∃ t, (p.threads t).BoundOn processor ∧ priority < (p.threads t).level) := by
  have strict : priority + 1 ≤ (p.processors processor).runq.highq ↔
      ∃ t, (p.threads t).BoundOn processor ∧ priority + 1 ≤ (p.threads t).level :=
    inv.le_highq_iff (by omega)
  simp only [Int.add_one_le_iff] at strict
  simp [Pset.processorQueueHasPriority, inv.le_highq_iff nonneg, strict]

theorem Pset.processorQueueHasPriority_spec_sample :
    (samplePset.processorQueueHasPriority 1 40 true = true ↔
        40 ≤ samplePset.root.priority.toInt ∨ ∃ t, (samplePset.threads t).BoundOn 1 ∧ (40 : Int) ≤ (samplePset.threads t).level) ∧
      (samplePset.processorQueueHasPriority 1 40 false = true ↔
        40 < samplePset.root.priority.toInt ∨ ∃ t, (samplePset.threads t).BoundOn 1 ∧ (40 : Int) < (samplePset.threads t).level) :=
  Pset.processorQueueHasPriority_spec (samplePset_reachable.inv (by decide)) (show (0 : Int) ≤ 40 by decide)

/-- An urgent thread is queued for the processor exactly when the hierarchy's
urgency, read as a `uint32_t`, or its run queue's is positive. -/
theorem PsetInv.urgent_iff (inv : PsetInv rtun now p) :
    (0 < p.root.rootUrgency ∨ 0 < (p.processors processor).runq.urgency) ↔
      ∃ t, p.QueuedFor processor t ∧ rtun.priorityIsUrgent (p.threads t).level = true := by
  rw [inv.root.rootUrgency_pos_iff, (inv.runq_ok processor).urgency_pos_iff]
  constructor
  · rintro (⟨t, info, found, urgent⟩ | ⟨pri, t, member, urgent⟩)
    · obtain ⟨-, -, same⟩ := PsetThread.hierarchyEntry_eq_some.mp ((inv.placement.hierarchy t).symm.trans found)
      refine ⟨t, inv.placement.queuedFor_iff.mpr (.inl (by simp [found])), ?_⟩
      rwa [PsetThread.level, same]
    · obtain ⟨boundOn, rfl⟩ := (inv.placement.bound_mem processor pri t).mp member
      exact ⟨t, inv.placement.queuedFor_iff.mpr (.inr boundOn), urgent⟩
  · rintro ⟨t, queued, urgent⟩
    rcases inv.placement.queuedFor_iff.mp queued with entry | boundOn
    · obtain ⟨info, found⟩ := Option.isSome_iff_exists.mp entry
      obtain ⟨-, -, same⟩ := PsetThread.hierarchyEntry_eq_some.mp ((inv.placement.hierarchy t).symm.trans found)
      refine .inl ⟨t, info, found, ?_⟩
      rwa [PsetThread.level, same] at urgent
    · exact .inr ⟨_, t, (inv.placement.bound_mem processor _ t).mpr ⟨boundOn, rfl⟩, urgent⟩

/-- `sched_clutch_processor_csw_check` on a processor running a thread asks for
an urgent preemption when the running thread should avoid the processor, or
when a queue is high enough and an urgent thread is queued for the processor,
and asks for none exactly when neither queue is high enough. -/
theorem Pset.processorCswCheck_spec (inv : PsetInv rtun now p) (allowRtSmt : Bool) (current : Nat)
    (running : (p.processors processor).activeThread.isSome) :
    let pr := p.processors processor
    let pri := max p.root.priority.toInt pr.runq.highq
    let hasHigher : Prop := if pr.firstTimeslice then pr.currentPri < pri else pr.currentPri ≤ pri
    let avoid := p.threadAvoidProcessor processor allowRtSmt (p.threads current).level
    ∃ ast, p.processorCswCheck processor allowRtSmt current = some ast ∧
      (ast = astPreempt ||| astUrgent ↔
        avoid = true ∨ hasHigher ∧ ∃ t, p.QueuedFor processor t ∧ rtun.priorityIsUrgent (p.threads t).level = true) ∧
      (ast = astNone ↔ avoid = false ∧ ¬hasHigher) := by
  intro pr pri hasHigher avoid
  have urgent : (0 < p.root.rootUrgency ∨ 0 < (p.processors processor).runq.urgency) ↔
      ∃ t, p.QueuedFor processor t ∧ rtun.priorityIsUrgent (p.threads t).level = true :=
    inv.urgent_iff
  have distinct : astPreempt ||| astUrgent ≠ astNone ∧ astPreempt ||| astUrgent ≠ astPreempt ∧ astPreempt ≠ astNone := by
    decide
  let higherB := if pr.firstTimeslice then decide (pri > pr.currentPri) else decide (pri ≥ pr.currentPri)
  have higher : higherB = true ↔ hasHigher := by
    show _ ↔ if pr.firstTimeslice then pr.currentPri < pri else pr.currentPri ≤ pri
    split <;> simp [higherB, *]
  have active : ¬pr.activeThread.isNone = true := by
    rw [Option.isNone_iff_eq_none]
    exact Option.isSome_iff_ne_none.mp running
  let urgentReply :=
    if p.root.rootUrgency > 0 then some (astPreempt ||| astUrgent)
    else if pr.runq.urgency > 0 then some (astPreempt ||| astUrgent) else some astPreempt
  have unfolded : p.processorCswCheck processor allowRtSmt current =
      if avoid then some (astPreempt ||| astUrgent)
      else if pr.activeThread.isNone then none
      else if higherB then urgentReply else some astNone := rfl
  rw [unfolded]
  by_cases avoided : avoid = true
  · -- a secondary SMT processor whose primary runs a realtime thread
    rw [if_pos avoided]
    exact ⟨_, rfl, iff_of_true rfl (.inl avoided), by simp [avoided, distinct.1]⟩
  have notAvoided : avoid = false := by simpa using avoided
  rw [if_neg avoided, if_neg active]
  by_cases high : hasHigher
  · rw [if_pos (higher.mpr high)]
    by_cases queued : ∃ t, p.QueuedFor processor t ∧ rtun.priorityIsUrgent (p.threads t).level = true
    · -- one of the two urgency counts is positive
      have reply : urgentReply = some (astPreempt ||| astUrgent) := by
        rcases urgent.mpr queued with rootUrgent | boundUrgent
        · exact if_pos rootUrgent
        · by_cases rootUrgent : p.root.rootUrgency > 0
          · exact if_pos rootUrgent
          · exact (if_neg rootUrgent).trans (if_pos boundUrgent)
      rw [reply]
      exact ⟨_, rfl, iff_of_true rfl (.inr ⟨high, queued⟩), by simp [distinct.1, high]⟩
    · have calm : ¬p.root.rootUrgency > 0 ∧ ¬pr.runq.urgency > 0 := by
        simpa [not_or] using mt urgent.mp queued
      have reply : urgentReply = some astPreempt := (if_neg calm.1).trans (if_neg calm.2)
      rw [reply]
      exact ⟨_, rfl, by simp [distinct.2.1.symm, notAvoided, queued], by simp [distinct.2.2, high]⟩
  · rw [if_neg (mt higher.mp high)]
    exact ⟨_, rfl, by simp [distinct.1.symm, notAvoided, high], by simp [notAvoided, high]⟩

theorem Pset.processorCswCheck_spec_sample :
    let pr := samplePset.processors 1
    let pri := max samplePset.root.priority.toInt pr.runq.highq
    let hasHigher : Prop := if pr.firstTimeslice then pr.currentPri < pri else pr.currentPri ≤ pri
    let avoid := samplePset.threadAvoidProcessor 1 true (samplePset.threads 21).level
    ∃ ast, samplePset.processorCswCheck 1 true 21 = some ast ∧
      (ast = astPreempt ||| astUrgent ↔
        avoid = true ∨ hasHigher ∧ ∃ t, samplePset.QueuedFor 1 t ∧
          rootTunables24MHz.priorityIsUrgent (samplePset.threads t).level = true) ∧
      (ast = astNone ↔ avoid = false ∧ ¬hasHigher) :=
  Pset.processorCswCheck_spec (samplePset_reachable.inv (by decide)) true 21 (by decide)

end Queries

section CallSpecs

variable {ctun : Tunables} {rtun : RootTunables} {now ts : UInt64} {p : Pset} {processor thread : Nat}

/-- The run queue of `processor` is below level `n` exactly when every thread
on it is. -/
theorem PsetInv.highq_lt_iff (inv : PsetInv rtun now p) (n : Nat) :
    (p.processors processor).runq.highq < n ↔ ∀ u, (p.threads u).BoundOn processor → (p.threads u).level < n := by
  constructor
  · intro below u boundOn
    have member := (inv.placement.bound_mem processor _ u).mpr ⟨boundOn, rfl⟩
    have atMost := (inv.runq_ok processor).le_highq (List.ne_nil_of_mem member)
    omega
  · intro below
    rcases (inv.runq_ok processor).highq_spec with ⟨none, -⟩ | ⟨h, highq, -, held, -⟩
    · rw [none, Sched.noPri]
      omega
    · obtain ⟨t, member⟩ := List.exists_mem_of_ne_nil _ held
      obtain ⟨boundOn, level⟩ := (inv.placement.bound_mem processor h t).mp member
      have := below t boundOn
      omega

/-- `sched_clutch_processor_enqueue` of a thread on no queue, bound to no
processor or to `processor` at a level of its run queue, puts the thread on the
queue of `processor` and moves no other; on `processor`'s run queue it returns
TRUE exactly when every thread there is below the thread's `sched_pri`. Its
own asserts hold: it faults only where `sched_clutch_thread_insert` does. -/
theorem Pset.processorEnqueue_spec (inv : PsetInv rtun now p) (tailq headq : Bool)
    (off : (p.threads thread).runq = none)
    (target : (p.threads thread).boundProcessor = none ∨
      (p.threads thread).boundProcessor = some processor ∧ (p.threads thread).level < nrqs) :
    (∃ p' flag, p.processorEnqueue ctun rtun processor thread tailq headq ts = some (p', flag) ∧
      p'.threads = Function.update p.threads thread { p.threads thread with runq := some processor } ∧
      ((p.threads thread).boundProcessor = some processor →
        (flag = true ↔ ∀ u, (p.threads u).BoundOn processor → (p.threads u).level < (p.threads thread).level))) ∨
      (p.threads thread).boundProcessor = none ∧
        p.root.threadInsert ctun rtun thread (p.threads thread).info tailq headq ts = none := by
  unfold Pset.processorEnqueue
  simp only [off, Option.isSome_none, Bool.false_eq_true, if_false]
  rcases target with unbound | ⟨bound, inside⟩
  · -- bound to no processor: the hierarchy takes it
    have eligible : (p.threads thread).eligible = true := by simp [PsetThread.eligible, unbound]
    simp only [Pset.setRunq_root, eligible, if_true]
    cases inserted : p.root.threadInsert ctun rtun thread (p.threads thread).info tailq headq ts with
    | none => exact .inr ⟨unbound, rfl⟩
    | some result =>
      refine .inl ⟨_, result.2, rfl, rfl, fun bound => ?_⟩
      rw [unbound] at bound
      cases bound
  · have eligible : (p.threads thread).eligible = false := by simp [PsetThread.eligible, bound]
    simp only [eligible, Bool.false_eq_true, if_false, bound, inside, and_self, if_true, Pset.setRunq_processors]
    refine .inl ⟨_, _, rfl, by simp [bound], fun _ => ?_⟩
    rw [(inv.runq_ok processor).enqueue_raises, gt_iff_lt, inv.highq_lt_iff]

theorem Pset.processorEnqueue_spec_sample :
    (∃ p' flag, samplePset.processorEnqueue tunables24MHz rootTunables24MHz 0 13 true false 300 = some (p', flag) ∧
      p'.threads = Function.update samplePset.threads 13 { samplePset.threads 13 with runq := some 0 } ∧
      ((samplePset.threads 13).boundProcessor = some 0 →
        (flag = true ↔ ∀ u, (samplePset.threads u).BoundOn 0 → (samplePset.threads u).level < (samplePset.threads 13).level))) ∨
      (samplePset.threads 13).boundProcessor = none ∧
        samplePset.root.threadInsert tunables24MHz rootTunables24MHz 13 (samplePset.threads 13).info true false 300 = none :=
  Pset.processorEnqueue_spec (samplePset_reachable.inv (by decide)) true false (by decide) (.inl (by decide))

theorem PsetThread.with_runq_self {th : PsetThread} (off : th.runq = none) : { th with runq := none } = th := by
  cases th
  simp_all

/-- `sched_clutch_processor_queue_remove` of a thread on no queue or on the
queue of `processor` returns TRUE exactly in the second case, and leaves the
thread on no queue and every other thread as it was. Its own asserts hold: it
faults only where `sched_clutch_thread_remove` does. -/
theorem Pset.processorQueueRemove_spec (inv : PsetInv rtun now p)
    (placed : (p.threads thread).runq = none ∨ (p.threads thread).runq = some processor) :
    (∃ p' flag, p.processorQueueRemove ctun rtun processor thread ts = some (p', flag) ∧
      (flag = true ↔ (p.threads thread).runq = some processor) ∧
      p'.threads = Function.update p.threads thread { p.threads thread with runq := none }) ∨
      (p.threads thread).boundProcessor = none ∧ (p.threads thread).runq = some processor ∧
        p.root.threadRemove ctun rtun thread ts false false = none := by
  unfold Pset.processorQueueRemove
  rcases placed with off | onQueue
  · -- the thread left the queues before the call: FALSE, and nothing moves
    simp only [off, reduceCtorEq, if_false, Option.isNone_none, if_true]
    refine .inl ⟨p, false, rfl, by simp, ?_⟩
    rw [PsetThread.with_runq_self off, Function.update_eq_self]
  · simp only [onQueue, if_true]
    cases bound : (p.threads thread).boundProcessor with
    | none =>
      have eligible : (p.threads thread).eligible = true := by simp [PsetThread.eligible, bound]
      simp only [eligible, if_true]
      cases removed : p.root.threadRemove ctun rtun thread ts false false with
      | none => exact .inr ⟨trivial, trivial, rfl⟩
      | some root' => exact .inl ⟨_, true, rfl, by simp, by simp [bound]⟩
    | some q =>
      -- a bound thread is on its own processor's queue, at its `sched_pri`
      have same : q = processor := inv.placement.runq_bound thread processor q onQueue bound
      subst same
      have member := (inv.placement.bound_mem q _ thread).mpr ⟨⟨onQueue, bound⟩, rfl⟩
      have eligible : (p.threads thread).eligible = false := by simp [PsetThread.eligible, bound]
      simp only [eligible, Bool.false_eq_true, if_false, member, and_self, if_true]
      exact .inl ⟨_, true, rfl, by simp, by simp [bound]⟩

theorem Pset.processorQueueRemove_spec_sample :
    (∃ p' flag, samplePset.processorQueueRemove tunables24MHz rootTunables24MHz 1 11 300 = some (p', flag) ∧
      (flag = true ↔ (samplePset.threads 11).runq = some 1) ∧
      p'.threads = Function.update samplePset.threads 11 { samplePset.threads 11 with runq := none }) ∨
      (samplePset.threads 11).boundProcessor = none ∧ (samplePset.threads 11).runq = some 1 ∧
        samplePset.root.threadRemove tunables24MHz rootTunables24MHz 11 300 false false = none :=
  Pset.processorQueueRemove_spec (samplePset_reachable.inv (by decide)) (.inr (by decide))

end CallSpecs

section Refinement

/-- What one call can do to the threads, stated over the threads alone: a
thread on no queue enters the queue of a processor it may run on, a thread on a
queue leaves it, a thread on no queue takes new attributes and stays off the
queues, or no thread changes. -/
inductive QueueStep (s : Nat → PsetThread) : (Nat → PsetThread) → Prop
  | enqueue (t q : Nat) (off : (s t).runq = none)
      (allowed : (s t).boundProcessor = none ∨ (s t).boundProcessor = some q) :
      QueueStep s (Function.update s t { s t with runq := some q })
  | dequeue (t q : Nat) (onQueue : (s t).runq = some q) : QueueStep s (Function.update s t { s t with runq := none })
  | update (t : Nat) (th : PsetThread) (off : (s t).runq = none) (stays : th.runq = none) :
      QueueStep s (Function.update s t th)
  | stay : QueueStep s s

/-- Every thread on a queue is on the queue of a processor it may run on. -/
def QueuedOk (s : Nat → PsetThread) : Prop :=
  ∀ t q, (s t).runq = some q → (s t).boundProcessor = none ∨ (s t).boundProcessor = some q

theorem QueuedOk.update {s : Nat → PsetThread} (ok : QueuedOk s) (t : Nat) {th : PsetThread}
    (placed : ∀ q, th.runq = some q → th.boundProcessor = none ∨ th.boundProcessor = some q) :
    QueuedOk (Function.update s t th) := by
  intro u q onQueue
  by_cases here : u = t
  · subst here
    simp only [Function.update_self] at onQueue ⊢
    exact placed q onQueue
  · simp only [Function.update_of_ne here] at onQueue ⊢
    exact ok u q onQueue

theorem QueueStep.queuedOk {s s' : Nat → PsetThread} (ok : QueuedOk s) (step : QueueStep s s') : QueuedOk s' := by
  cases step with
  | enqueue t q _ allowed =>
    exact ok.update t fun q' onQueue => by cases onQueue; exact allowed
  | dequeue t q _ => exact ok.update t fun q' onQueue => by cases onQueue
  | update t th _ stays => exact ok.update t fun q' onQueue => by rw [stays] at onQueue; cases onQueue
  | stay => exact ok

/-- Along any run of the abstract steps, from threads on no queue or placed. -/
theorem queueRun_queuedOk {s s' : Nat → PsetThread} (ok : QueuedOk s) (run : Relation.ReflTransGen QueueStep s s') :
    QueuedOk s' := by
  induction run with
  | refl => exact ok
  | tail _ step holds => exact step.queuedOk holds

variable {ctun : Tunables} {rtun : RootTunables} {now : UInt64} {p p' : Pset}

/-- The hierarchy's accounting calls leave the threads as they are. -/
theorem Pset.rootStep_threads {e : HierarchyEvent} (stepped : p.rootStep ctun rtun e = some p') :
    p'.threads = p.threads := by
  obtain ⟨root, -, rfl⟩ := Option.map_eq_some_iff.mp stepped
  rfl

/-- Each call moves the threads by one abstract step. -/
theorem psetStep_refines (online : 0 < rtun.onlineProcessorCount) (inv : PsetInv rtun now p) {e : PsetEvent}
    (later : now.toNat ≤ e.timestamp.toNat) (noWrap : NoWrap rtun e.timestamp)
    (stepped : psetStep ctun rtun p e = some p') : QueueStep p.threads p'.threads := by
  cases e with
  | processorEnqueue processor thread tailq headq timestamp =>
    obtain ⟨⟨p'', flag⟩, enqueued, rfl⟩ := Option.map_eq_some_iff.mp stepped
    obtain ⟨off, ⟨unbound, root, -, rfl⟩ | ⟨bound, -, -, rfl⟩⟩ := Pset.processorEnqueue_cases enqueued
    · exact .enqueue thread processor off (.inl unbound)
    · exact .enqueue thread processor off (.inr bound)
  | chooseThread processor priority timestamp =>
    obtain ⟨⟨p'', res⟩, chosen, rfl⟩ := Option.map_eq_some_iff.mp stepped
    obtain ⟨-, unchanged, taken⟩ := Pset.chooseThread_result online inv later noWrap chosen
    show QueueStep p.threads p''.threads
    cases res with
    | none =>
      rw [unchanged rfl]
      exact .stay
    | some t =>
      obtain ⟨⟨queued, -⟩, threads, -⟩ := taken t rfl
      obtain ⟨q, onQueue⟩ := Option.isSome_iff_exists.mp queued
      rw [threads]
      exact .dequeue t q onQueue
  | processorQueueRemove processor thread timestamp =>
    obtain ⟨⟨p'', flag⟩, removed, rfl⟩ := Option.map_eq_some_iff.mp stepped
    obtain ⟨-, -, rfl⟩ | ⟨onQueue, -, ⟨-, root', -, rfl⟩ | ⟨-, rfl⟩⟩ := Pset.processorQueueRemove_cases removed
    · exact .stay
    · exact .dequeue thread processor onQueue
    · exact .dequeue thread processor onQueue
  | threadUpdate thread info boundProcessor timestamp =>
    simp only [psetStep, Pset.threadUpdate] at stepped
    split at stepped
    · cases stepped
    · rename_i off
      cases stepped
      exact .update thread _ (by simpa using off) rfl
  | processorSwitch processor currentPri firstTimeslice activeThread timestamp =>
    cases stepped
    exact .stay
  | cpuUsageUpdate x delta timestamp =>
    rw [Pset.rootStep_threads stepped]
    exact .stay
  | runBucketIncr x timestamp =>
    rw [Pset.rootStep_threads stepped]
    exact .stay
  | runBucketDecr x timestamp =>
    rw [Pset.rootStep_threads stepped]
    exact .stay

/-- The threads the model runs on are what the queues hold: a thread is on a
queue exactly when a bound run queue holds it at its `sched_pri`, or the runq
of its clutch bucket in the hierarchy holds it. -/
theorem PsetInv.queued_iff (inv : PsetInv rtun now p) (t : Nat) :
    (p.threads t).runq.isSome ↔
      (∃ q, t ∈ (p.processors q).runq.queues (p.threads t).level) ∨
        t ∈ Heap.membersOf (p.root.threadRunqs (p.threads t).info.clutchBucket) := by
  have placement := inv.placement
  have threadsOk := inv.root.threads_inv.threads_ok (p.threads t).info.clutchBucket
  constructor
  · intro onQueue
    obtain ⟨q, atQ⟩ := Option.isSome_iff_exists.mp onQueue
    cases bound : (p.threads t).boundProcessor with
    | none =>
      -- an unbound thread on a queue is in the hierarchy
      have entry : p.root.threads t = some (p.threads t).info := by
        rw [placement.hierarchy t, PsetThread.hierarchyEntry_eq_some]
        exact ⟨by simp [atQ], bound, rfl⟩
      exact .inr ((threadsOk.members_iff t).mpr ⟨_, entry, rfl⟩)
    | some q' =>
      -- a bound one is on the run queue of the processor it is bound to
      obtain rfl := placement.runq_bound t q q' atQ bound
      exact .inl ⟨q', (placement.bound_mem q' _ t).mpr ⟨⟨atQ, bound⟩, rfl⟩⟩
  · rintro (⟨q, member⟩ | member)
    · obtain ⟨⟨atQ, -⟩, -⟩ := (placement.bound_mem q _ t).mp member
      simp [atQ]
    · obtain ⟨info, found, -⟩ := (threadsOk.members_iff t).mp member
      exact (PsetThread.hierarchyEntry_eq_some.mp ((placement.hierarchy t).symm.trans found)).1

/-- Every run from `sched_clutch_pset_init` whose timestamps never go back and
where no deadline wraps moves the threads, from the given ones taken off every
queue, by a run of abstract steps: a thread enters a queue only from none, and
its attributes change only off the queues. The threads it ends with are on a
queue exactly when the queues hold them. -/
theorem psetRun_refines (online : 0 < rtun.onlineProcessorCount) {tgPriority : Nat → TgPriority}
    {processors : Nat → Processor} {threads : Nat → PsetThread} {events : List PsetEvent}
    (run : psetRun ctun rtun (psetInit ctun rtun tgPriority processors threads) events = some p)
    (ordered : events.Pairwise (fun e e' => e.timestamp.toNat ≤ e'.timestamp.toNat))
    (timed : ∀ e ∈ events, e.timestamp.toNat ≤ now.toNat ∧ NoWrap rtun e.timestamp) :
    Relation.ReflTransGen QueueStep (fun t => { threads t with runq := none }) p.threads ∧
      ∀ t, (p.threads t).runq.isSome ↔
        (∃ q, t ∈ (p.processors q).runq.queues (p.threads t).level) ∨
          t ∈ Heap.membersOf (p.root.threadRunqs (p.threads t).info.clutchBucket) := by
  obtain ⟨inv, refined⟩ := psetRun_induction online (fun p _ p'' => Relation.ReflTransGen QueueStep p.threads p''.threads)
    (fun _ => .refl) (fun inv later noWrap stepped rest => .head (psetStep_refines online inv later noWrap stepped) rest)
    (psetInit_inv tgPriority processors threads) (Nat.zero_le _) (fun e member => ⟨Nat.zero_le _, timed e member⟩)
    ordered run
  exact ⟨refined, inv.queued_iff⟩

theorem psetRun_refines_sample :
    Relation.ReflTransGen QueueStep (fun t => { sampleThreads t with runq := none }) samplePset.threads :=
  (psetRun_refines (by decide) samplePset_run (by decide) samplePsetEvents_timed).1

end Refinement

end Xnu.Clutch
