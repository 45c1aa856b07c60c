import Xnu.Sched.ClutchRoot
import Xnu.Sched.RunQueueCorrect

namespace Xnu.Clutch

open Sched (RunQueue)

/-! What holds of the root level at every point of a run whose timestamps do
not go back: each root bucket is runnable exactly when its run queue holds
something, the deadline queue holds exactly the runnable timeshare root
buckets, a warp bit is set only on one of them, and no deadline of a runnable
or starving root bucket lies past the latest timestamp plus its WCEL. From it,
`sched_clutch_root_highest_root_bucket` goes round its loop at most once per
warp bit and starvation flag, returns NULL exactly when nothing of the kind
asked for is runnable, and otherwise a runnable root bucket, without a panic of
`sched_clutch_root_bucket_deadline_update` as long as no deadline wraps past
`2^64`. -/

section Access

variable {r : Root} {side side' : RootSide} {bound other : Bool} {b : Nat} {rootBucket : RootBucket}
  {rb : RootBucketRef}

@[simp] theorem Root.side_setSide_self : (r.setSide bound side).side bound = side := by
  cases bound <;> rfl

theorem Root.side_setSide_of_ne (apart : other ≠ bound) : (r.setSide bound side).side other = r.side other := by
  cases bound <;> cases other <;> first | rfl | exact absurd rfl apart

@[simp] theorem Root.side_setSide_not : (r.setSide bound side).side (!bound) = r.side (!bound) :=
  Root.side_setSide_of_ne (by cases bound <;> decide)

@[simp] theorem Root.setSide_side : r.setSide bound (r.side bound) = r := by
  cases bound <;> rfl

@[simp] theorem Root.setSide_setSide : (r.setSide bound side).setSide bound side' = r.setSide bound side' := by
  cases bound <;> rfl

@[simp] theorem Root.setSide_clutchBucketPriority :
    (r.setSide bound side).clutchBucketPriority = r.clutchBucketPriority := by
  cases bound <;> rfl

@[simp] theorem Root.setSide_clutchBucketMaxSchedPri :
    (r.setSide bound side).clutchBucketMaxSchedPri = r.clutchBucketMaxSchedPri := by
  cases bound <;> rfl

@[simp] theorem Root.setSide_threadSchedPri : (r.setSide bound side).threadSchedPri = r.threadSchedPri := by
  cases bound <;> rfl

@[simp] theorem Root.bucketAt_eq : r.bucketAt rb = (r.side rb.bound).buckets rb.bucket := rfl

@[simp] theorem Root.setBucket_eq :
    r.setBucket rb rootBucket = r.setSide rb.bound ((r.side rb.bound).setBucket rb.bucket rootBucket) := rfl

@[simp] theorem RootSide.setBucket_runnableBitmap : (side.setBucket b rootBucket).runnableBitmap = side.runnableBitmap :=
  rfl

@[simp] theorem RootSide.setBucket_warpAvailable : (side.setBucket b rootBucket).warpAvailable = side.warpAvailable :=
  rfl

@[simp] theorem RootSide.setBucket_rootBuckets : (side.setBucket b rootBucket).rootBuckets = side.rootBuckets := rfl

@[simp] theorem RootSide.setBucket_buckets :
    (side.setBucket b rootBucket).buckets = Function.update side.buckets b rootBucket := rfl

@[simp] theorem Root.side_false : r.side false = r.unbound := rfl

@[simp] theorem Root.side_true : r.side true = r.bound := rfl

end Access

section Invariant

variable (tun : RootTunables)

/-- The levels of a root bucket's run queue and which of them are urgent:
clutch buckets up to `NRQS_MAX`, none urgent; bound threads up to `NRQS`. -/
def runqLevels (bound : Bool) : Nat := if bound then nrqs else nrqsMax

def runqUrgent (bound : Bool) : Nat → Bool := if bound then tun.priorityIsUrgent else fun _ => false

/-- What holds of root bucket `b` of one kind once no timestamp passed so far
is past `now`: its run queue is consistent; it is runnable exactly when the run
queue holds something; it is queued by deadline exactly when it is a runnable
timeshare root bucket; it has its warp bit only then; and, runnable or
starving, its deadline is at most `now` plus its WCEL. -/
structure BucketOk (now : UInt64) (bound : Bool) (side : RootSide) (b : Nat) : Prop where
  runq_ok : RunQueue.Ok (runqLevels bound) (runqUrgent tun bound) (side.buckets b).runq
  runnable_iff : side.runnableBitmap b = true ↔ b < bucketSchedMax ∧ (side.buckets b).runq.count ≠ 0
  queued_iff : b ∈ Heap.membersOf side.rootBuckets ↔ b ≠ bucketFixpri ∧ side.runnableBitmap b = true
  warp_runnable : side.warpAvailable b = true → side.runnableBitmap b = true ∧ b ≠ bucketFixpri
  deadline_le : b ≠ bucketFixpri → side.runnableBitmap b = true ∨ (side.buckets b).starvationAvoidance = true →
    (side.buckets b).deadline.toNat ≤ now.toNat + (tun.rootBucketWcel b).toNat

structure SideInv (now : UInt64) (bound : Bool) (side : RootSide) : Prop where
  bucket_ok : ∀ b, BucketOk tun now bound side b
  nodup : (Heap.membersOf side.rootBuckets).Nodup

/-- Both kinds of root bucket keep the invariant. -/
def RootInv (now : UInt64) (r : Root) : Prop := ∀ bound, SideInv tun now bound (r.side bound)

/-- No timeshare deadline `sched_clutch_root_bucket_deadline_calculate` computes
at `timestamp` wraps past `2^64`. -/
def NoWrap (timestamp : UInt64) : Prop :=
  ∀ b, bucketShareFg ≤ b → b < bucketSchedMax → timestamp.toNat + (tun.rootBucketWcel b).toNat < 2 ^ 64

variable {tun} {now ts : UInt64} {bound : Bool} {side side' : RootSide} {b : Nat}

/-- Root bucket `b` keeps its invariant when nothing of it changes. -/
theorem BucketOk.frame (ok : BucketOk tun now bound side b) (bucket : side'.buckets b = side.buckets b)
    (runnable : side'.runnableBitmap b = side.runnableBitmap b) (warp : side'.warpAvailable b = side.warpAvailable b)
    (queued : b ∈ Heap.membersOf side'.rootBuckets ↔ b ∈ Heap.membersOf side.rootBuckets) :
    BucketOk tun now bound side' b where
  runq_ok := bucket ▸ ok.runq_ok
  runnable_iff := by rw [runnable, bucket]; exact ok.runnable_iff
  queued_iff := by rw [queued, runnable]; exact ok.queued_iff
  warp_runnable := by rw [warp, runnable]; exact ok.warp_runnable
  deadline_le := by rw [runnable, bucket]; exact ok.deadline_le

theorem BucketOk.mono (ok : BucketOk tun now bound side b) (later : now.toNat ≤ ts.toNat) :
    BucketOk tun ts bound side b :=
  { ok with deadline_le := fun timeshare held => (ok.deadline_le timeshare held).trans (by omega) }

theorem SideInv.mono (inv : SideInv tun now bound side) (later : now.toNat ≤ ts.toNat) : SideInv tun ts bound side :=
  ⟨fun b => (inv.bucket_ok b).mono later, inv.nodup⟩

theorem RootInv.mono {r : Root} (inv : RootInv tun now r) (later : now.toNat ≤ ts.toNat) : RootInv tun ts r :=
  fun bound => (inv bound).mono later

/-- A runnable root bucket is one of the `TH_BUCKET_SCHED_MAX`. -/
theorem BucketOk.lt_of_runnable (ok : BucketOk tun now bound side b) (runnable : side.runnableBitmap b = true) :
    b < bucketSchedMax :=
  (ok.runnable_iff.mp runnable).1

theorem BucketOk.queued (ok : BucketOk tun now bound side b) (runnable : side.runnableBitmap b = true)
    (timeshare : b ≠ bucketFixpri) : b ∈ Heap.membersOf side.rootBuckets :=
  ok.queued_iff.mpr ⟨timeshare, runnable⟩

theorem rootSideInit_inv (bound : Bool) : SideInv tun 0 bound (rootSideInit tun) where
  bucket_ok b :=
    { runq_ok := Sched.runQueueInit_ok
      runnable_iff := by simp [rootSideInit, rootBucketInit, Sched.runQueueInit]
      queued_iff := by simp [rootSideInit]
      warp_runnable := by simp [rootSideInit]
      deadline_le := by simp [rootSideInit, rootBucketInit] }
  nodup := List.nodup_nil

theorem rootInit_inv : RootInv tun 0 (rootInit tun) := by
  intro bound
  cases bound <;> exact rootSideInit_inv _

end Invariant

section Change

variable {tun : RootTunables} {now ts : UInt64} {bound : Bool} {side side' : RootSide} {b : Nat} {r : Root}

/-- The invariant of a side in which only root bucket `b` changed, with its
bits and its place in the deadline queue, when `b` keeps its own facts. -/
theorem SideInv.change (inv : SideInv tun now bound side) (later : now.toNat ≤ ts.toNat)
    (buckets : ∀ c, c ≠ b → side'.buckets c = side.buckets c)
    (runnable : ∀ c, c ≠ b → side'.runnableBitmap c = side.runnableBitmap c)
    (warp : ∀ c, c ≠ b → side'.warpAvailable c = side.warpAvailable c)
    (queued : ∀ c, c ≠ b → (c ∈ Heap.membersOf side'.rootBuckets ↔ c ∈ Heap.membersOf side.rootBuckets))
    (nodup : (Heap.membersOf side'.rootBuckets).Nodup) (ok : BucketOk tun ts bound side' b) :
    SideInv tun ts bound side' := by
  refine ⟨fun c => ?_, nodup⟩
  by_cases same : c = b
  · exact same ▸ ok
  · exact ((inv.bucket_ok c).mono later).frame (buckets c same) (runnable c same) (warp c same) (queued c same)

/-- The root keeps its invariant when one kind of root bucket does and the
other is untouched. -/
theorem RootInv.setSide (inv : RootInv tun now r) (later : now.toNat ≤ ts.toNat)
    (changed : SideInv tun ts bound side') : RootInv tun ts (r.setSide bound side') := by
  intro other
  by_cases same : other = bound
  · subst same
    rw [Root.side_setSide_self]
    exact changed
  · rw [Root.side_setSide_of_ne same]
    exact (inv other).mono later

theorem mem_merge_single (beats : Nat → Nat → Bool) (hq : Option (Heap Nat)) {x c : Nat} :
    x ∈ (Heap.merge beats hq ⟨c, .leaf⟩).members ↔ x ∈ Heap.membersOf hq ∨ x = c := by
  simp [Heap.mem_merge]

/-- A `sift_down` keeps the members of a heap holding the element moved. -/
theorem mem_siftDown {beats : Nat → Nat → Bool} {h : Heap Nat} {c : Nat} (nodup : h.members.Nodup)
    (member : c ∈ h.members) {x : Nat} :
    x ∈ (Heap.merge beats (Heap.remove beats c h) ⟨c, .leaf⟩).members ↔ x ∈ h.members := by
  rw [mem_merge_single, Heap.mem_remove beats nodup member]
  by_cases same : x = c
  · subst same
    simp [member]
  · simp [same]

theorem nodup_siftDown {beats : Nat → Nat → Bool} {h : Heap Nat} {c : Nat} (nodup : h.members.Nodup)
    (member : c ∈ h.members) : (Heap.merge beats (Heap.remove beats c h) ⟨c, .leaf⟩).members.Nodup := by
  refine Heap.nodup_merge beats (List.nodup_append.mpr ⟨Heap.nodup_remove beats nodup member, List.nodup_singleton c, ?_⟩)
  intro x kept y single
  rw [Heap.mem_remove beats nodup member] at kept
  have : y = c := by simpa using single
  exact this ▸ kept.2

end Change

section Deadline

variable {tun : RootTunables} {now ts : UInt64} {r : Root} {rb : RootBucketRef}

/-- The deadline a timeshare root bucket gets at a timestamp that does not wrap. -/
theorem toNat_rootBucketDeadlineCalculate (noWrap : NoWrap tun ts) (timeshare : rb.bucket ≠ bucketFixpri)
    (small : rb.bucket < bucketSchedMax) :
    (rootBucketDeadlineCalculate tun rb.bucket ts).toNat = ts.toNat + (tun.rootBucketWcel rb.bucket).toNat := by
  have shareFg : bucketShareFg ≤ rb.bucket := by
    unfold bucketShareFg
    unfold bucketFixpri at timeshare
    omega
  rw [rootBucketDeadlineCalculate, if_neg (Nat.not_lt.mpr shareFg)]
  exact UInt64.toNat_add_of_lt (noWrap rb.bucket shareFg small)

/-- `sched_clutch_root_bucket_deadline_update` of a queued root bucket, at a
timestamp no earlier than any before and where no deadline wraps, does not
panic: it moves the deadline to the timestamp plus the WCEL and sets no bit or
flag. -/
theorem rootBucketDeadlineUpdate_spec (inv : SideInv tun now rb.bound (r.side rb.bound))
    (queued : rb.bucket ∈ Heap.membersOf (r.side rb.bound).rootBuckets) (later : now.toNat ≤ ts.toNat)
    (noWrap : NoWrap tun ts) :
    ∃ side', rootBucketDeadlineUpdate tun r rb ts = some (r.setSide rb.bound side') ∧
      SideInv tun ts rb.bound side' ∧ side'.runnableBitmap = (r.side rb.bound).runnableBitmap ∧
      side'.warpAvailable = (r.side rb.bound).warpAvailable ∧
      ∀ c, (side'.buckets c).starvationAvoidance = ((r.side rb.bound).buckets c).starvationAvoidance := by
  have ok := inv.bucket_ok rb.bucket
  obtain ⟨timeshare, runnable⟩ := ok.queued_iff.mp queued
  have small := ok.lt_of_runnable runnable
  have bound := ok.deadline_le timeshare (Or.inl runnable)
  have computed := toNat_rootBucketDeadlineCalculate noWrap timeshare small
  have noPanic : ¬((r.side rb.bound).buckets rb.bucket).deadline > rootBucketDeadlineCalculate tun rb.bucket ts := by
    rw [gt_iff_lt, UInt64.lt_iff_toNat_lt, computed]
    omega
  obtain ⟨h, held⟩ : ∃ h, (r.side rb.bound).rootBuckets = some h := by
    cases found : (r.side rb.bound).rootBuckets with
    | none => rw [found] at queued; cases queued
    | some h => exact ⟨h, rfl⟩
  rw [held, Heap.membersOf_some] at queued
  have nodup := inv.nodup
  rw [held, Heap.membersOf_some] at nodup
  unfold rootBucketDeadlineUpdate
  rw [if_neg timeshare, Root.bucketAt_eq, if_neg noPanic]
  split
  · -- the deadline moves: the root bucket is sifted down its queue, which keeps its members
    dsimp only
    rw [RootSide.setBucket_rootBuckets, held, Option.map_some]
    refine ⟨_, rfl, ?_, rfl, rfl, fun c => ?_⟩
    · have members : ∀ {beats : Nat → Nat → Bool} (x : Nat),
          x ∈ Heap.membersOf (some (Heap.merge beats (Heap.remove beats rb.bucket h) ⟨rb.bucket, .leaf⟩)) ↔
            x ∈ Heap.membersOf (r.side rb.bound).rootBuckets := fun x => by
        rw [Heap.membersOf_some, mem_siftDown nodup queued, held, Heap.membersOf_some]
      refine inv.change later (b := rb.bucket) (fun c apart => by simp [apart]) (fun _ _ => rfl)
        (fun _ _ => rfl) (fun c _ => members c) (nodup_siftDown nodup queued) ?_
      exact
        { runq_ok := by simpa using ok.runq_ok
          runnable_iff := by simpa using ok.runnable_iff
          queued_iff := by rw [members]; exact ok.queued_iff
          warp_runnable := ok.warp_runnable
          deadline_le := fun _ _ => by simp [computed] }
    · by_cases same : c = rb.bucket
      · subst same
        simp
      · simp [same]
  · exact ⟨r.side rb.bound, by rw [Root.setSide_side], inv.mono later, rfl, rfl, fun _ => rfl⟩

end Deadline

section Transitions

variable {tun : RootTunables} {now ts : UInt64} {r : Root} {rb : RootBucketRef}

/-- A root bucket's run queue changing without filling or emptying keeps the
invariant. -/
theorem SideInv.setRunq {bound : Bool} {side : RootSide} {b : Nat} (inv : SideInv tun now bound side)
    (later : now.toNat ≤ ts.toNat) {rq : RunQueue Nat} (ok : RunQueue.Ok (runqLevels bound) (runqUrgent tun bound) rq)
    (same : rq.count = 0 ↔ (side.buckets b).runq.count = 0) :
    SideInv tun ts bound (side.setBucket b { side.buckets b with runq := rq }) := by
  have before := (inv.bucket_ok b).mono later
  refine inv.change later (b := b) (fun c apart => by simp [apart]) (fun _ _ => rfl) (fun _ _ => rfl)
    (fun _ _ => Iff.rfl) inv.nodup ?_
  exact
    { runq_ok := by simpa using ok
      runnable_iff := by simpa [same] using before.runnable_iff
      queued_iff := before.queued_iff
      warp_runnable := before.warp_runnable
      deadline_le := by simpa using before.deadline_le }

/-- A root bucket whose run queue was empty, made runnable by
`sched_clutch_root_bucket_runnable` and then given a run queue that holds
something, keeps the invariant. -/
theorem SideInv.runnable (inv : SideInv tun now rb.bound (r.side rb.bound)) (later : now.toNat ≤ ts.toNat)
    (noWrap : NoWrap tun ts) (small : rb.bucket < bucketSchedMax)
    (empty : ((r.side rb.bound).buckets rb.bucket).runq.count = 0) {rq : RunQueue Nat}
    (ok : RunQueue.Ok (runqLevels rb.bound) (runqUrgent tun rb.bound) rq) (held : rq.count ≠ 0) :
    ∃ side', rootBucketRunnable tun r rb ts = r.setSide rb.bound side' ∧
      (side'.buckets rb.bucket).runq = ((r.side rb.bound).buckets rb.bucket).runq ∧
      SideInv tun ts rb.bound (side'.setBucket rb.bucket { side'.buckets rb.bucket with runq := rq }) := by
  have before := inv.bucket_ok rb.bucket
  have idle : (r.side rb.bound).runnableBitmap rb.bucket = false := by
    by_contra set
    exact (before.runnable_iff.mp (by simpa using set)).2 empty
  have out : rb.bucket ∉ Heap.membersOf (r.side rb.bound).rootBuckets := fun queued => by
    have := (before.queued_iff.mp queued).2
    rw [idle] at this
    cases this
  have noWarp : (r.side rb.bound).warpAvailable rb.bucket = false := by
    by_contra set
    have := (before.warp_runnable (by simpa using set)).1
    rw [idle] at this
    cases this
  unfold rootBucketRunnable
  dsimp only
  by_cases fixpri : rb.bucket = bucketFixpri
  · -- the above-UI root bucket is only marked runnable
    rw [if_pos fixpri]
    refine ⟨_, rfl, rfl, inv.change later (b := rb.bucket) (fun c apart => by simp [apart])
      (fun c apart => by simp [apart]) (fun _ _ => rfl) (fun _ _ => Iff.rfl) inv.nodup ?_⟩
    exact
      { runq_ok := by simpa using ok
        runnable_iff := by simp [small, held]
        queued_iff := by simpa [fixpri] using fixpri ▸ out
        warp_runnable := by simp [noWarp]
        deadline_le := fun timeshare => absurd fixpri timeshare }
  · rw [if_neg fixpri]
    have members : ∀ (beats : Nat → Nat → Bool) (c : Nat), c ≠ rb.bucket →
        (c ∈ Heap.membersOf (some (Heap.merge beats (r.side rb.bound).rootBuckets ⟨rb.bucket, .leaf⟩)) ↔
          c ∈ Heap.membersOf (r.side rb.bound).rootBuckets) := fun beats c apart => by
      simp [mem_merge_single, apart]
    have nodup : ∀ (beats : Nat → Nat → Bool),
        (Heap.membersOf (some (Heap.merge beats (r.side rb.bound).rootBuckets ⟨rb.bucket, .leaf⟩))).Nodup :=
      fun beats => Heap.nodup_merge beats (List.nodup_append.mpr ⟨inv.nodup, List.nodup_singleton _,
        fun x inOld y single same => by
          have atBucket : y = rb.bucket := List.mem_singleton.mp single
          exact out (atBucket ▸ same ▸ inOld)⟩)
    -- a starving root bucket keeps its deadline, which the invariant bounds already
    have deadline : ∀ rootBucket : RootBucket, rootBucket.starvationAvoidance = ((r.side rb.bound).buckets rb.bucket).starvationAvoidance →
        (rootBucket.starvationAvoidance = false → rootBucket.deadline = rootBucketDeadlineCalculate tun rb.bucket ts) →
        (rootBucket.starvationAvoidance = true → rootBucket.deadline = ((r.side rb.bound).buckets rb.bucket).deadline) →
        rootBucket.deadline.toNat ≤ ts.toNat + (tun.rootBucketWcel rb.bucket).toNat := by
      intro rootBucket starving fresh kept
      cases flag : rootBucket.starvationAvoidance
      · rw [fresh flag, toNat_rootBucketDeadlineCalculate noWrap fixpri small]
      · rw [kept flag]
        exact (before.deadline_le fixpri (Or.inr (starving ▸ flag))).trans (by omega)
    refine ⟨_, rfl, ?_, ?_⟩
    · split_ifs <;> simp
    · split_ifs with starving warpLeft warpLeft <;>
        refine inv.change later (b := rb.bucket) (fun c apart => by simp [apart]) (fun c apart => by simp [apart])
          (fun c apart => by simp [apart]) (fun c apart => by simpa using members _ c apart) (by simpa using nodup _)
          { runq_ok := by simpa using ok
            runnable_iff := by simp [small, held]
            queued_iff := by simp [mem_merge_single, fixpri]
            warp_runnable := by simp [fixpri, noWarp]
            deadline_le := fun _ _ => deadline _ (by simp) (by simp [starving]) (by simp [starving]) }

/-- A root bucket whose run queue a removal emptied, then taken out by
`sched_clutch_root_bucket_empty`, keeps the invariant. -/
theorem SideInv.empty (inv : SideInv tun now rb.bound (r.side rb.bound)) (later : now.toNat ≤ ts.toNat)
    (small : rb.bucket < bucketSchedMax) (held : ((r.side rb.bound).buckets rb.bucket).runq.count ≠ 0)
    {rq : RunQueue Nat} (ok : RunQueue.Ok (runqLevels rb.bound) (runqUrgent tun rb.bound) rq) (emptied : rq.count = 0) :
    ∃ side', rootBucketEmpty (r.setBucket rb { r.bucketAt rb with runq := rq }) rb ts = some (r.setSide rb.bound side') ∧
      SideInv tun ts rb.bound side' := by
  have before := (inv.bucket_ok rb.bucket).mono later
  have runnable : (r.side rb.bound).runnableBitmap rb.bucket = true := before.runnable_iff.mpr ⟨small, held⟩
  unfold rootBucketEmpty
  simp only [Root.setBucket_eq, Root.bucketAt_eq, Root.side_setSide_self, Root.setSide_setSide,
    RootSide.setBucket_runnableBitmap, RootSide.setBucket_rootBuckets, RootSide.setBucket_warpAvailable]
  by_cases fixpri : rb.bucket = bucketFixpri
  · -- the above-UI root bucket is only marked not runnable
    rw [if_pos fixpri]
    refine ⟨_, rfl, inv.change later (b := rb.bucket) (fun c apart => by simp [apart])
      (fun c apart => by simp [apart]) (fun _ _ => rfl) (fun _ _ => Iff.rfl) inv.nodup ?_⟩
    have notQueued : rb.bucket ∉ Heap.membersOf (r.side rb.bound).rootBuckets := fun queued =>
      (before.queued_iff.mp queued).1 fixpri
    have noWarp : (r.side rb.bound).warpAvailable rb.bucket = false := by
      by_contra set
      exact (before.warp_runnable (by simpa using set)).2 fixpri
    exact
      { runq_ok := by simpa using ok
        runnable_iff := by simp [emptied]
        queued_iff := by simpa [fixpri] using fixpri ▸ notQueued
        warp_runnable := by simp [noWarp]
        deadline_le := fun timeshare => absurd fixpri timeshare }
  · rw [if_neg fixpri]
    have queued := before.queued runnable fixpri
    obtain ⟨h, found⟩ : ∃ h, (r.side rb.bound).rootBuckets = some h := by
      cases heap : (r.side rb.bound).rootBuckets with
      | none => rw [heap] at queued; cases queued
      | some h => exact ⟨h, rfl⟩
    have nodup := inv.nodup
    rw [found, Heap.membersOf_some] at queued nodup
    rw [found, Option.map_some]
    refine ⟨_, rfl, ?_⟩
    split_ifs <;>
      refine inv.change later (b := rb.bucket) (fun c apart => by simp [apart]) (fun c apart => by simp [apart])
        (fun c apart => by simp [apart]) (fun c apart => by simp [found, Heap.mem_remove _ nodup queued, apart])
        (Heap.nodup_remove _ nodup queued)
        { runq_ok := by simpa using ok
          runnable_iff := by simp [emptied]
          queued_iff := by simp [Heap.mem_remove _ nodup queued]
          warp_runnable := by simp
          deadline_le := fun timeshare starving => by
            simpa using before.deadline_le timeshare (Or.inr (by simpa using starving.resolve_left (by simp))) }

end Transitions

section Hierarchy

variable {tun : RootTunables} {now ts : UInt64} {r r' : Root} {rb : RootBucketRef}

@[simp] theorem rootBucketRunnable_clutchBucketPriority :
    (rootBucketRunnable tun r rb ts).clutchBucketPriority = r.clutchBucketPriority := by
  unfold rootBucketRunnable
  split <;> simp

@[simp] theorem rootBucketRunnable_threadSchedPri :
    (rootBucketRunnable tun r rb ts).threadSchedPri = r.threadSchedPri := by
  unfold rootBucketRunnable
  split <;> simp

theorem clutchBucketRunqRotate_ok {rq rq' : RunQueue Nat} {clutchBucket p : Nat}
    (ok : RunQueue.Ok nrqsMax (fun _ => false) rq) (rotated : clutchBucketRunqRotate rq clutchBucket p = some rq') :
    RunQueue.Ok nrqsMax (fun _ => false) rq' ∧ rq'.count = rq.count := by
  unfold clutchBucketRunqRotate at rotated
  split at rotated
  · rename_i first rest level
    split at rotated
    · cases rotated
      have held : rq.queues p ≠ [] := by simp [level]
      have set : rq.bitmap p = true := (ok.bitmap_iff p).mpr ⟨ok.lt_of_ne_nil held, held⟩
      refine ⟨ok.setLevel (ok.lt_of_ne_nil held) (rest ++ [first]) rfl ?_ ?_ ?_ ?_, rfl⟩
      · simp [set]
      · simpa using ok.highq_eq
      · simp [level]
      · simp
    · cases rotated
  · cases rotated

@[simp] theorem runqLevels_false : runqLevels false = nrqsMax := rfl

@[simp] theorem runqLevels_true : runqLevels true = nrqs := rfl

@[simp] theorem runqUrgent_false : runqUrgent tun false = fun _ => false := rfl

@[simp] theorem runqUrgent_true : runqUrgent tun true = tun.priorityIsUrgent := rfl

section ClutchBucketRunq

variable {rq : RunQueue Nat} {clutchBucket pri : Nat} {headq : Bool}

theorem clutchBucketRunqEnqueue_ok (ok : RunQueue.Ok nrqsMax (fun _ => false) rq) (inside : pri < nrqsMax) :
    RunQueue.Ok nrqsMax (fun _ => false) (clutchBucketRunqEnqueue rq clutchBucket pri headq) :=
  ok.enqueue clutchBucket (!headq) inside

@[simp] theorem clutchBucketRunqEnqueue_count :
    (clutchBucketRunqEnqueue rq clutchBucket pri headq).count = rq.count + 1 :=
  Sched.runQueueEnqueue_count

theorem clutchBucketRunqRemove_ok (ok : RunQueue.Ok nrqsMax (fun _ => false) rq) (member : clutchBucket ∈ rq.queues pri) :
    RunQueue.Ok nrqsMax (fun _ => false) (clutchBucketRunqRemove rq clutchBucket pri) :=
  ok.remove member

@[simp] theorem clutchBucketRunqRemove_count : (clutchBucketRunqRemove rq clutchBucket pri).count = rq.count - 1 :=
  Sched.runQueueRemove_count

end ClutchBucketRunq

/-- A thing put into a root bucket's run queue, the root bucket made runnable
first when the queue was empty, keeps the invariant: the common part of
`sched_clutch_bucket_hierarchy_insert` and `sched_edge_bound_thread_insert`. -/
theorem RootInv.insert (inv : RootInv tun now r) (rb : RootBucketRef) (later : now.toNat ≤ ts.toNat) (noWrap : NoWrap tun ts)
    (small : rb.bucket < bucketSchedMax) (enqueue : RunQueue Nat → RunQueue Nat)
    (enqueue_ok : RunQueue.Ok (runqLevels rb.bound) (runqUrgent tun rb.bound) (enqueue (r.bucketAt rb).runq))
    (enqueue_count : (enqueue (r.bucketAt rb).runq).count = (r.bucketAt rb).runq.count + 1) :
    RootInv tun ts
      (let r := if (r.bucketAt rb).runq.count = 0 then rootBucketRunnable tun r rb ts else r
       r.setBucket rb { r.bucketAt rb with runq := enqueue (r.bucketAt rb).runq }) := by
  have sideInv := inv rb.bound
  have nonneg : 0 ≤ (r.bucketAt rb).runq.count := (sideInv.bucket_ok rb.bucket).runq_ok.count_nonneg
  have held : (enqueue (r.bucketAt rb).runq).count ≠ 0 := by
    rw [enqueue_count]
    omega
  dsimp only
  split
  · -- the first thing queued makes the root bucket runnable
    rename_i empty
    obtain ⟨side', runnable, runq, changed⟩ := sideInv.runnable later noWrap small empty enqueue_ok held
    simp only [runnable, Root.bucketAt_eq, Root.setBucket_eq, Root.side_setSide_self, Root.setSide_setSide, runq]
    exact inv.setSide later changed
  · rename_i busy
    have same : (enqueue (r.bucketAt rb).runq).count = 0 ↔ (r.bucketAt rb).runq.count = 0 := by
      rw [enqueue_count]
      omega
    exact inv.setSide later (sideInv.setRunq later enqueue_ok same)

theorem bucketHierarchyInsert_inv (inv : RootInv tun now r) (later : now.toNat ≤ ts.toNat) (noWrap : NoWrap tun ts)
    {clutchBucket bucket : Nat} {headq : Bool} (small : bucket < bucketSchedMax)
    (inserted : bucketHierarchyInsert tun r clutchBucket bucket ts headq = some r') : RootInv tun ts r' := by
  have ok := ((inv false).bucket_ok bucket).runq_ok
  unfold bucketHierarchyInsert at inserted
  simp only [apply_ite Root.clutchBucketPriority, rootBucketRunnable_clutchBucketPriority, ite_self] at inserted
  split at inserted
  · rename_i inside
    cases inserted
    exact inv.insert ⟨false, bucket⟩ later noWrap small
      (fun rq => clutchBucketRunqEnqueue rq clutchBucket (r.clutchBucketPriority clutchBucket).toNat headq)
      (clutchBucketRunqEnqueue_ok (by simpa using ok) inside) clutchBucketRunqEnqueue_count
  · cases inserted

/-- A thing taken out of a root bucket's run queue, the root bucket emptied
when the queue empties, keeps the invariant: the common part of
`sched_clutch_bucket_hierarchy_remove` and `sched_edge_bound_thread_remove`. -/
theorem RootInv.remove (inv : RootInv tun now r) (rb : RootBucketRef) (later : now.toNat ≤ ts.toNat) (small : rb.bucket < bucketSchedMax)
    (dequeue : RunQueue Nat → RunQueue Nat) (held : (r.bucketAt rb).runq.count ≠ 0)
    (dequeue_ok : RunQueue.Ok (runqLevels rb.bound) (runqUrgent tun rb.bound) (dequeue (r.bucketAt rb).runq))
    (removed : (let r := r.setBucket rb { r.bucketAt rb with runq := dequeue (r.bucketAt rb).runq }
      if (r.bucketAt rb).runq.count = 0 then rootBucketEmpty r rb ts else some r) = some r') :
    RootInv tun ts r' := by
  have sideInv := inv rb.bound
  dsimp only at removed
  split at removed
  · -- the last thing taken out empties the root bucket
    rename_i emptied
    simp only [Root.bucketAt_eq, Root.setBucket_eq, Root.side_setSide_self, RootSide.setBucket_buckets,
      Function.update_self] at emptied
    obtain ⟨side', emptiedRoot, changed⟩ := sideInv.empty later small held dequeue_ok emptied
    rw [emptiedRoot] at removed
    cases removed
    exact inv.setSide later changed
  · rename_i busy
    cases removed
    simp only [Root.bucketAt_eq, Root.setBucket_eq, Root.side_setSide_self, RootSide.setBucket_buckets,
      Function.update_self] at busy
    have same : (dequeue (r.bucketAt rb).runq).count = 0 ↔ (r.bucketAt rb).runq.count = 0 := by
      simp only [Root.bucketAt_eq] at held ⊢
      omega
    exact inv.setSide later (sideInv.setRunq later dequeue_ok same)

/-- A queued element makes its run queue count something. -/
theorem count_ne_zero_of_mem {levels : Nat} {urgent : Nat → Bool} {rq : RunQueue Nat} {x pri : Nat}
    (ok : RunQueue.Ok levels urgent rq) (member : x ∈ rq.queues pri) : rq.count ≠ 0 := fun zero => by
  rw [ok.count_eq_zero_iff.mp zero pri] at member
  cases member

theorem bucketHierarchyRemove_inv (inv : RootInv tun now r) (later : now.toNat ≤ ts.toNat)
    {clutchBucket bucket : Nat} (small : bucket < bucketSchedMax)
    (removed : bucketHierarchyRemove r clutchBucket bucket ts = some r') : RootInv tun ts r' := by
  have ok : RunQueue.Ok nrqsMax (fun _ => false) (r.bucketAt ⟨false, bucket⟩).runq := by
    simpa using ((inv false).bucket_ok bucket).runq_ok
  unfold bucketHierarchyRemove at removed
  dsimp only at removed
  split at removed
  · rename_i member
    exact inv.remove ⟨false, bucket⟩ later small
      (fun rq => clutchBucketRunqRemove rq clutchBucket (r.clutchBucketPriority clutchBucket).toNat)
      (count_ne_zero_of_mem ok member) (by simpa using clutchBucketRunqRemove_ok ok member)
      removed
  · cases removed

theorem boundThreadInsert_inv (inv : RootInv tun now r) (later : now.toNat ≤ ts.toNat) (noWrap : NoWrap tun ts)
    {thread bucket : Nat} {tailq : Bool} (small : bucket < bucketSchedMax)
    (inserted : boundThreadInsert tun r thread bucket tailq ts = some r') : RootInv tun ts r' := by
  have ok : RunQueue.Ok nrqs tun.priorityIsUrgent (r.bucketAt ⟨true, bucket⟩).runq := by
    simpa using ((inv true).bucket_ok bucket).runq_ok
  unfold boundThreadInsert at inserted
  simp only [apply_ite Root.threadSchedPri, rootBucketRunnable_threadSchedPri, ite_self] at inserted
  split at inserted
  · rename_i inside
    cases inserted
    exact inv.insert ⟨true, bucket⟩ later noWrap small
      (fun rq => (Sched.runQueueEnqueue tun.priorityIsUrgent rq thread (r.threadSchedPri thread).toNat tailq).1)
      (by simpa using ok.enqueue thread tailq inside) Sched.runQueueEnqueue_count
  · cases inserted

theorem boundThreadRemove_inv (inv : RootInv tun now r) (later : now.toNat ≤ ts.toNat)
    {thread bucket : Nat} (small : bucket < bucketSchedMax)
    (removed : boundThreadRemove tun r thread bucket ts = some r') : RootInv tun ts r' := by
  have ok : RunQueue.Ok nrqs tun.priorityIsUrgent (r.bucketAt ⟨true, bucket⟩).runq := by
    simpa using ((inv true).bucket_ok bucket).runq_ok
  unfold boundThreadRemove at removed
  dsimp only at removed
  split at removed
  · rename_i member
    exact inv.remove ⟨true, bucket⟩ later small
      (fun rq => Sched.runQueueRemove nrqs tun.priorityIsUrgent rq thread (r.threadSchedPri thread).toNat)
      (count_ne_zero_of_mem ok member) (by simpa using ok.remove member) removed
  · cases removed

theorem clutchBucketUpdate_inv (inv : RootInv tun now r) (later : now.toNat ≤ ts.toNat)
    {clutchBucket bucket : Nat} {newPri : UInt8} {headq samepriRr : Bool}
    (updated : clutchBucketUpdate r clutchBucket bucket newPri headq samepriRr = some r') : RootInv tun ts r' := by
  have sideInv := inv false
  have ok : RunQueue.Ok nrqsMax (fun _ => false) ((r.side false).buckets bucket).runq := by
    simpa using (sideInv.bucket_ok bucket).runq_ok
  unfold clutchBucketUpdate at updated
  dsimp only at updated
  split at updated
  · split at updated
    · -- the same priority: a rotation within the level
      obtain ⟨rotatedRunq, rotated, rfl⟩ := Option.map_eq_some_iff.mp updated
      obtain ⟨rotatedOk, count⟩ := clutchBucketRunqRotate_ok ok rotated
      exact inv.setSide later (sideInv.setRunq later (by simpa using rotatedOk) (by rw [count]))
    · cases updated
      exact inv.mono later
  · -- a new priority: out of the old level and into the new one
    split at updated
    · rename_i moved
      cases updated
      obtain ⟨member, inside⟩ := moved
      have nonneg := ok.count_nonneg
      have held := count_ne_zero_of_mem ok member
      have same : (clutchBucketRunqEnqueue (clutchBucketRunqRemove ((r.side false).buckets bucket).runq clutchBucket
          (r.clutchBucketPriority clutchBucket).toNat) clutchBucket newPri.toNat headq).count = 0 ↔
          ((r.side false).buckets bucket).runq.count = 0 := by
        rw [clutchBucketRunqEnqueue_count, clutchBucketRunqRemove_count]
        omega
      exact inv.setSide later (sideInv.setRunq later
        (by simpa using clutchBucketRunqEnqueue_ok (clutchBucketRunqRemove_ok ok member) inside) same)
    · cases updated

end Hierarchy

end Xnu.Clutch
