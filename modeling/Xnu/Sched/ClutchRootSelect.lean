import Xnu.Sched.ClutchRootCorrect

namespace Xnu.Clutch

open Sched (RunQueue)

/-! The loop of `sched_clutch_root_highest_root_bucket`. Each pass returns a
root bucket or clears one warp bit or one starvation flag, so the loop returns
within one pass more than the bits and flags set when it starts. Under the
invariant of the root level every root bucket it reaches is queued by
deadline, so no `sched_clutch_root_bucket_deadline_update` it calls panics as
long as no deadline wraps past `2^64`, and no processor count it divides by is
zero once one processor is online. Over whole runs from `sched_clutch_root_init`
this gives what a selection returns at any later timestamp. -/

section Measure

/-- The warp bits and starvation flags set on the root buckets of one kind. -/
def RootSide.pending (side : RootSide) : Nat :=
  ((Finset.range bucketSchedMax).filter fun b => side.warpAvailable b = true).card +
    ((Finset.range bucketSchedMax).filter fun b => (side.buckets b).starvationAvoidance = true).card

/-- What the loop at `evaluate_root_buckets` can clear before it has to return. -/
def Root.pending (r : Root) : Nat := (r.side false).pending + (r.side true).pending

theorem card_filter_le_of_imp {p q : Nat → Bool} (n : Nat) (fewer : ∀ c, q c = true → p c = true) :
    ((Finset.range n).filter fun c => q c = true).card ≤ ((Finset.range n).filter fun c => p c = true).card :=
  Finset.card_le_card fun c kept => by
    rw [Finset.mem_filter] at kept ⊢
    exact ⟨kept.1, fewer c kept.2⟩

theorem card_filter_lt_of_imp {p q : Nat → Bool} {n b : Nat} (fewer : ∀ c, q c = true → p c = true)
    (inside : b < n) (cleared : p b = true ∧ q b = false) :
    ((Finset.range n).filter fun c => q c = true).card < ((Finset.range n).filter fun c => p c = true).card := by
  refine Finset.card_lt_card ((Finset.ssubset_iff_of_subset fun c kept => ?_).mpr ⟨b, ?_, ?_⟩)
  · rw [Finset.mem_filter] at kept ⊢
    exact ⟨kept.1, fewer c kept.2⟩
  · simp [inside, cleared.1]
  · simp [cleared.2]

variable {side side' : RootSide} {r : Root} {bound : Bool}

theorem RootSide.pending_le (side : RootSide) : side.pending ≤ 2 * bucketSchedMax := by
  have warp := Finset.card_filter_le (Finset.range bucketSchedMax) fun b => side.warpAvailable b = true
  have starving :=
    Finset.card_filter_le (Finset.range bucketSchedMax) fun b => (side.buckets b).starvationAvoidance = true
  rw [Finset.card_range] at warp starving
  unfold RootSide.pending
  omega

theorem Root.pending_lt_rootSelectFuel (r : Root) : r.pending < rootSelectFuel := by
  have unbound := (r.side false).pending_le
  have bound := (r.side true).pending_le
  unfold Root.pending rootSelectFuel
  omega

theorem Root.pending_setSide (r : Root) (bound : Bool) (side' : RootSide) :
    (r.setSide bound side').pending + (r.side bound).pending = r.pending + side'.pending := by
  cases bound <;> simp [Root.pending, Root.setSide] <;> omega

theorem Root.pending_setSide_le (fewer : side'.pending ≤ (r.side bound).pending) :
    (r.setSide bound side').pending ≤ r.pending := by
  have total := Root.pending_setSide r bound side'
  omega

theorem Root.pending_setSide_lt (fewer : side'.pending < (r.side bound).pending) :
    (r.setSide bound side').pending < r.pending := by
  have total := Root.pending_setSide r bound side'
  omega

/-- A root bucket replaced by one that starves only if the old one did leaves no
new starvation flag. -/
theorem RootSide.starving_setBucket {b : Nat} {x : RootBucket}
    (starving : x.starvationAvoidance = true → (side.buckets b).starvationAvoidance = true) (c : Nat)
    (set : ((side.setBucket b x).buckets c).starvationAvoidance = true) : (side.buckets c).starvationAvoidance = true := by
  by_cases here : c = b
  · subst here
    exact starving (by simpa using set)
  · simpa [here] using set

/-- A side that sets no flag the other lacks counts no more. -/
theorem RootSide.pending_le_of (warp : ∀ c, side'.warpAvailable c = true → side.warpAvailable c = true)
    (starving : ∀ c, (side'.buckets c).starvationAvoidance = true → (side.buckets c).starvationAvoidance = true) :
    side'.pending ≤ side.pending :=
  Nat.add_le_add (card_filter_le_of_imp _ warp) (card_filter_le_of_imp _ starving)

/-- A side that sets no flag the other lacks and clears one it has counts less. -/
theorem RootSide.pending_lt (warp : ∀ c, side'.warpAvailable c = true → side.warpAvailable c = true)
    (starving : ∀ c, (side'.buckets c).starvationAvoidance = true → (side.buckets c).starvationAvoidance = true)
    {b : Nat} (small : b < bucketSchedMax)
    (cleared : side.warpAvailable b = true ∧ side'.warpAvailable b = false ∨
      (side.buckets b).starvationAvoidance = true ∧ (side'.buckets b).starvationAvoidance = false) :
    side'.pending < side.pending := by
  have warpLe := card_filter_le_of_imp bucketSchedMax warp
  have starvingLe := card_filter_le_of_imp bucketSchedMax starving
  unfold RootSide.pending
  rcases cleared with cleared | cleared
  · have fewer := card_filter_lt_of_imp warp small cleared
    omega
  · have fewer := card_filter_lt_of_imp starving small cleared
    omega

end Measure

section Selection

/-- Whether a selection of `type` may return a root bucket of that kind. -/
def HighestRootBucketType.takes : HighestRootBucketType → Bool → Bool
  | .unboundOnly, bound => !bound
  | .all, _ => true

/-- Root bucket `rb` is marked runnable. -/
def Root.Runnable (r : Root) (rb : RootBucketRef) : Prop := (r.side rb.bound).runnableBitmap rb.bucket = true

instance (r : Root) (rb : RootBucketRef) : Decidable (r.Runnable rb) :=
  inferInstanceAs (Decidable (_ = true))

/-- Two roots mark the same root buckets runnable. -/
def Root.SameRunnable (r r' : Root) : Prop := ∀ bound, (r'.side bound).runnableBitmap = (r.side bound).runnableBitmap

/-- Some timeshare root bucket of a kind `type` takes is runnable. -/
def TimeshareRunnable (r : Root) (type : HighestRootBucketType) : Prop :=
  ∃ rb : RootBucketRef, type.takes rb.bound = true ∧ rb.bucket ≠ bucketFixpri ∧ r.Runnable rb

variable {tun : RootTunables} {ts : UInt64} {r r' r'' : Root} {rb : RootBucketRef} {type : HighestRootBucketType}

/-- What a selection hands back: a runnable root bucket of a kind `type` takes,
and a root that keeps the invariant and marks the same root buckets runnable. -/
structure Selected (tun : RootTunables) (ts : UInt64) (type : HighestRootBucketType) (r : Root) (rb : RootBucketRef)
    (r' : Root) : Prop where
  inv : RootInv tun ts r'
  takes : type.takes rb.bound = true
  runnable : r.Runnable rb
  same : r.SameRunnable r'

theorem Root.SameRunnable.refl (r : Root) : r.SameRunnable r := fun _ => rfl

theorem Root.SameRunnable.trans (first : r.SameRunnable r') (second : r'.SameRunnable r'') : r.SameRunnable r'' :=
  fun bound => (second bound).trans (first bound)

theorem Root.SameRunnable.runnable (same : r.SameRunnable r') : r'.Runnable rb ↔ r.Runnable rb := by
  unfold Root.Runnable
  rw [same rb.bound]

theorem Root.SameRunnable.timeshare (same : r.SameRunnable r') (timeshare : TimeshareRunnable r type) :
    TimeshareRunnable r' type :=
  let ⟨rb, takes, other, runnable⟩ := timeshare
  ⟨rb, takes, other, same.runnable.mpr runnable⟩

theorem Root.sameRunnable_setSide {bound : Bool} {side' : RootSide}
    (same : side'.runnableBitmap = (r.side bound).runnableBitmap) : r.SameRunnable (r.setSide bound side') := by
  intro other
  by_cases here : other = bound
  · subst here
    rw [Root.side_setSide_self, same]
  · rw [Root.side_setSide_of_ne here]

theorem Selected.back (selected : Selected tun ts type r' rb r'') (same : r.SameRunnable r') :
    Selected tun ts type r rb r'' :=
  ⟨selected.inv, selected.takes, same.runnable.mp selected.runnable, same.trans selected.same⟩

/-- `bitmap_lsb_first` finds the lowest set bit below `nbits`, or `-1`. -/
theorem bitmapLsbFirst_spec (map : Nat → Bool) (nbits : Nat) :
    (bitmapLsbFirst map nbits = -1 ∧ ∀ b < nbits, map b = false) ∨
      ∃ i : Nat, bitmapLsbFirst map nbits = i ∧ i < nbits ∧ map i = true ∧ ∀ j < i, map j = false := by
  unfold bitmapLsbFirst
  split
  · rename_i i found
    obtain ⟨-, below, set, clear⟩ := leastFrom_eq_some.mp found
    exact Or.inr ⟨i, rfl, by omega, set, fun j lower => clear j (Nat.zero_le j) lower⟩
  · rename_i found
    exact Or.inl ⟨rfl, fun b below => leastFrom_eq_none.mp found b (Nat.zero_le b) (by omega)⟩

/-- With a timeshare root bucket of the kind asked for runnable, `edf_bucket`
is not NULL: it is the head of a deadline queue of that kind. -/
theorem edfBucket_spec {now : UInt64} (inv : RootInv tun now r) (timeshare : TimeshareRunnable r type) :
    ∃ edf, edfBucket r type = some edf ∧ type.takes edf.bound = true ∧
      edf.bucket ∈ Heap.membersOf (r.side edf.bound).rootBuckets := by
  obtain ⟨rb, takes, other, runnable⟩ := timeshare
  have queued := ((inv rb.bound).bucket_ok rb.bucket).queued runnable other
  have head : ∀ h : Heap Nat, h.root ∈ h.members := fun h => List.mem_cons_self
  cases type with
  | unboundOnly =>
    have unbound : rb.bound = false := by simpa [HighestRootBucketType.takes] using takes
    rw [unbound, Root.side_false] at queued
    cases held : r.unbound.rootBuckets with
    | none => rw [held] at queued; cases queued
    | some h => exact ⟨⟨false, h.root⟩, by simp [edfBucket, held], rfl, by simp [held, head]⟩
  | all =>
    cases unbound : r.unbound.rootBuckets with
    | none =>
      cases bound : r.bound.rootBuckets with
      | none => cases side : rb.bound <;> simp [side, unbound, bound] at queued
      | some b => exact ⟨⟨true, b.root⟩, by simp [edfBucket, unbound, bound], rfl, by simp [bound, head]⟩
    | some u =>
      cases bound : r.bound.rootBuckets with
      | none => exact ⟨⟨false, u.root⟩, by simp [edfBucket, unbound, bound], rfl, by simp [unbound, head]⟩
      | some b =>
        by_cases earlier : (r.bound.buckets b.root).deadline ≤ (r.unbound.buckets u.root).deadline
        · exact ⟨⟨true, b.root⟩, by simp [edfBucket, unbound, bound, earlier], rfl, by simp [bound, head]⟩
        · exact ⟨⟨false, u.root⟩, by simp [edfBucket, unbound, bound, earlier], rfl, by simp [unbound, head]⟩

end Selection

section Pass

variable {tun : RootTunables} {ts : UInt64} {r : Root} {rb : RootBucketRef}

/-- Changing a root bucket's fields other than its run queue and its deadline
keeps the invariant, as long as it is left starving only if it was runnable or
starving. -/
theorem RootInv.setBucket (inv : RootInv tun ts r) (rb : RootBucketRef) {x : RootBucket} (runq : x.runq = (r.bucketAt rb).runq)
    (deadline : x.deadline = (r.bucketAt rb).deadline)
    (starving : x.starvationAvoidance = true → r.Runnable rb ∨ (r.bucketAt rb).starvationAvoidance = true) :
    RootInv tun ts (r.setBucket rb x) ∧ r.SameRunnable (r.setBucket rb x) := by
  have before := (inv rb.bound).bucket_ok rb.bucket
  have changed : SideInv tun ts rb.bound ((r.side rb.bound).setBucket rb.bucket x) := by
    refine (inv rb.bound).change (le_refl _) (b := rb.bucket) (fun c apart => by simp [apart]) (fun _ _ => rfl)
      (fun _ _ => rfl) (fun _ _ => Iff.rfl) (inv rb.bound).nodup ?_
    exact
      { runq_ok := by simpa [runq] using before.runq_ok
        runnable_iff := by simpa [runq] using before.runnable_iff
        queued_iff := before.queued_iff
        warp_runnable := before.warp_runnable
        deadline_le := fun timeshare held => by
          simp only [RootSide.setBucket_buckets, Function.update_self, RootSide.setBucket_runnableBitmap] at held ⊢
          rw [deadline]
          exact before.deadline_le timeshare (held.elim Or.inl starving) }
  rw [Root.setBucket_eq]
  exact ⟨inv.setSide (le_refl _) changed, Root.sameRunnable_setSide rfl⟩

/-- Setting or clearing a warp bit keeps the invariant, as long as it is set
only on a runnable timeshare root bucket. -/
theorem RootInv.setWarp (inv : RootInv tun ts r) (rb : RootBucketRef) (flag : Bool)
    (allowed : flag = true → r.Runnable rb ∧ rb.bucket ≠ bucketFixpri) :
    RootInv tun ts (r.setSide rb.bound
        { r.side rb.bound with warpAvailable := Function.update (r.side rb.bound).warpAvailable rb.bucket flag }) ∧
      r.SameRunnable (r.setSide rb.bound
        { r.side rb.bound with warpAvailable := Function.update (r.side rb.bound).warpAvailable rb.bucket flag }) := by
  have before := (inv rb.bound).bucket_ok rb.bucket
  have changed : SideInv tun ts rb.bound
      { r.side rb.bound with warpAvailable := Function.update (r.side rb.bound).warpAvailable rb.bucket flag } := by
    refine (inv rb.bound).change (le_refl _) (b := rb.bucket) (fun _ _ => rfl) (fun _ _ => rfl)
      (fun c apart => by simp [apart]) (fun _ _ => Iff.rfl) (inv rb.bound).nodup ?_
    exact
      { runq_ok := before.runq_ok
        runnable_iff := before.runnable_iff
        queued_iff := before.queued_iff
        warp_runnable := fun set => allowed (by simpa using set)
        deadline_le := before.deadline_le }
  exact ⟨inv.setSide (le_refl _) changed, Root.sameRunnable_setSide rfl⟩

/-- `sched_clutch_root_bucket_deadline_update` of a queued root bucket, where no
deadline wraps, keeps the invariant, the runnable bits and the count of flags. -/
theorem RootInv.deadlineUpdate (inv : RootInv tun ts r) (rb : RootBucketRef) (noWrap : NoWrap tun ts)
    (queued : rb.bucket ∈ Heap.membersOf (r.side rb.bound).rootBuckets) :
    ∃ r', rootBucketDeadlineUpdate tun r rb ts = some r' ∧ RootInv tun ts r' ∧ r.SameRunnable r' ∧
      r'.pending = r.pending := by
  obtain ⟨side', updated, changed, runnable, warp, starving⟩ :=
    rootBucketDeadlineUpdate_spec (inv rb.bound) queued (le_refl _) noWrap
  have counted : side'.pending = (r.side rb.bound).pending := by
    unfold RootSide.pending
    simp only [warp, starving]
  have total := Root.pending_setSide r rb.bound side'
  exact ⟨_, updated, inv.setSide (le_refl _) changed, Root.sameRunnable_setSide runnable, by omega⟩

/-- Leaving a root bucket starving only if it was does not add to the flags. -/
theorem Root.pending_setBucket_le (rb : RootBucketRef) {x : RootBucket}
    (starving : x.starvationAvoidance = true → (r.bucketAt rb).starvationAvoidance = true) :
    (r.setBucket rb x).pending ≤ r.pending := by
  rw [Root.setBucket_eq]
  exact Root.pending_setSide_le (RootSide.pending_le_of (fun _ set => set) (RootSide.starving_setBucket starving))

/-- Ending a root bucket's starvation avoidance clears one flag. -/
theorem Root.pending_setBucket_lt (rb : RootBucketRef) {x : RootBucket} (small : rb.bucket < bucketSchedMax)
    (starving : (r.bucketAt rb).starvationAvoidance = true) (cleared : x.starvationAvoidance = false) :
    (r.setBucket rb x).pending < r.pending := by
  rw [Root.setBucket_eq]
  refine Root.pending_setSide_lt (RootSide.pending_lt (fun _ set => set) (RootSide.starving_setBucket ?_) small
    (Or.inr ⟨starving, by simpa using cleared⟩))
  simp [cleared]

/-- Clearing a set warp bit clears one flag. -/
theorem Root.pending_clearWarp (rb : RootBucketRef) (small : rb.bucket < bucketSchedMax)
    (set : (r.side rb.bound).warpAvailable rb.bucket = true) :
    (r.setSide rb.bound
      { r.side rb.bound with warpAvailable := Function.update (r.side rb.bound).warpAvailable rb.bucket false }).pending <
      r.pending := by
  refine Root.pending_setSide_lt (RootSide.pending_lt (fun c kept => ?_) (fun _ set => set) small (Or.inl ⟨set, by simp⟩))
  by_cases here : c = rb.bucket
  · subst here
    simp at kept
  · simpa [here] using kept

/-- One pass of the loop at `evaluate_root_buckets`, with the invariant and a
runnable timeshare root bucket of the kind asked for: it returns a runnable
root bucket of that kind, or clears a warp bit or a starvation flag and goes
round again from a root that keeps the invariant. -/
theorem evaluateRootBuckets_pass {type : HighestRootBucketType} (online : 0 < tun.onlineProcessorCount)
    (noWrap : NoWrap tun ts) (inv : RootInv tun ts r) (timeshare : TimeshareRunnable r type) (highest : Int)
    (fuel : Nat) :
    (∃ rb r', evaluateRootBuckets tun ts type highest (fuel + 1) r = some (rb, r') ∧ Selected tun ts type r rb r') ∨
      ∃ r', evaluateRootBuckets tun ts type highest (fuel + 1) r = evaluateRootBuckets tun ts type highest fuel r' ∧
        RootInv tun ts r' ∧ r'.pending < r.pending ∧ r.SameRunnable r' := by
  obtain ⟨edf, found, takes, queued⟩ := edfBucket_spec inv timeshare
  have edfOk := (inv edf.bound).bucket_ok edf.bucket
  obtain ⟨timeshareEdf, runnable⟩ := edfOk.queued_iff.mp queued
  have small := edfOk.lt_of_runnable runnable
  rw [evaluateRootBuckets, found, Option.bind_some]
  dsimp only
  split
  · -- no root bucket ahead of `edf_bucket` has warp left
    split
    · rename_i starving
      have windowPos : 0 < tun.onlineProcessorCount.toInt64.toUInt64.toNat := by
        rw [Int32.toNat_toUInt64_of_nonneg (Int32.le_of_lt online)]
        exact Int32.toNatClampNeg_pos online
      rw [udiv_of_pos windowPos, Option.bind_some]
      split
      · exact Or.inl ⟨edf, r, rfl, inv, takes, runnable, .refl r⟩
      · -- the starvation window has closed: the flag is cleared and the deadline moves on
        obtain ⟨clearedInv, clearedSame⟩ := inv.setBucket edf
          (x := { (r.side edf.bound).buckets edf.bucket with starvationAvoidance := false, starvationTs := 0 })
          rfl rfl (by simp)
        have fewer := Root.pending_setBucket_lt (r := r) edf
          (x := { (r.side edf.bound).buckets edf.bucket with starvationAvoidance := false, starvationTs := 0 })
          small starving rfl
        obtain ⟨updated, update, updatedInv, updatedSame, counted⟩ :=
          clearedInv.deadlineUpdate edf noWrap (by simpa using queued)
        rw [update, Option.bind_some]
        exact Or.inr ⟨updated, rfl, updatedInv, by omega, clearedSame.trans updatedSame⟩
    · split
      · -- a higher root bucket is runnable: `edf_bucket` enters starvation avoidance
        obtain ⟨starvingInv, starvingSame⟩ := inv.setBucket edf
          (x := { (r.side edf.bound).buckets edf.bucket with starvationAvoidance := true, starvationTs := ts })
          rfl rfl fun _ => Or.inl runnable
        exact Or.inl ⟨edf, _, rfl, starvingInv, takes, runnable, starvingSame⟩
      · -- the natural order: the deadline moves on and the warp is refilled
        obtain ⟨updated, update, updatedInv, updatedSame, -⟩ := inv.deadlineUpdate edf noWrap queued
        rw [update, Option.map_some]
        obtain ⟨refilledInv, refilledSame⟩ := updatedInv.setBucket edf
          (x := { updated.bucketAt edf with
                    warpRemaining := tun.rootBucketWarp edf.bucket, warpedDeadline := warpUnused })
          rfl rfl Or.inr
        have sameSoFar := updatedSame.trans refilledSame
        obtain ⟨warpInv, warpSame⟩ := refilledInv.setWarp edf true
          fun _ => ⟨sameSoFar.runnable.mpr runnable, timeshareEdf⟩
        exact Or.inl ⟨edf, _, rfl, warpInv, takes, runnable, sameSoFar.trans warpSame⟩
  · -- a root bucket ahead of `edf_bucket` on its side has warp left
    rename_i behind
    obtain ⟨w, atW, set, ahead⟩ : ∃ w : Nat, bitmapLsbFirst (r.side edf.bound).warpAvailable bucketSchedMax = w ∧
        (r.side edf.bound).warpAvailable w = true ∧ w < edf.bucket := by
      rcases bitmapLsbFirst_spec (r.side edf.bound).warpAvailable bucketSchedMax with ⟨none, -⟩ | ⟨w, atW, -, set, -⟩
      · exact absurd (Or.inl none) behind
      · rw [atW] at behind
        exact ⟨w, atW, set, by omega⟩
    have warpOk := (inv edf.bound).bucket_ok w
    obtain ⟨warpRunnable, timeshareWarp⟩ := warpOk.warp_runnable set
    have warpQueued := warpOk.queued warpRunnable timeshareWarp
    have warpTakes : type.takes (⟨edf.bound, w⟩ : RootBucketRef).bound = true := takes
    simp only [atW, Int.toNat_natCast]
    split
    · -- its warp window opens now
      obtain ⟨openedInv, openedSame⟩ := inv.setBucket ⟨edf.bound, w⟩
        (x := { r.bucketAt ⟨edf.bound, w⟩ with warpedDeadline := ts + (r.bucketAt ⟨edf.bound, w⟩).warpRemaining })
        rfl rfl Or.inr
      obtain ⟨updated, update, updatedInv, updatedSame, -⟩ := openedInv.deadlineUpdate ⟨edf.bound, w⟩ noWrap (by simpa using warpQueued)
      rw [update, Option.map_some]
      exact Or.inl ⟨_, updated, rfl, updatedInv, warpTakes, warpRunnable, openedSame.trans updatedSame⟩
    · split
      · -- its warp window is still open
        obtain ⟨updated, update, updatedInv, updatedSame, -⟩ := inv.deadlineUpdate ⟨edf.bound, w⟩ noWrap warpQueued
        rw [update, Option.map_some]
        exact Or.inl ⟨_, updated, rfl, updatedInv, warpTakes, warpRunnable, updatedSame⟩
      · -- its warp window has closed: its warp bit is cleared
        obtain ⟨spentInv, spentSame⟩ := inv.setBucket ⟨edf.bound, w⟩
          (x := { r.bucketAt ⟨edf.bound, w⟩ with warpRemaining := 0 }) rfl rfl Or.inr
        have spentCount := Root.pending_setBucket_le (r := r) ⟨edf.bound, w⟩
          (x := { r.bucketAt ⟨edf.bound, w⟩ with warpRemaining := 0 }) id
        obtain ⟨clearedInv, clearedSame⟩ := spentInv.setWarp ⟨edf.bound, w⟩ false nofun
        have fewer := Root.pending_clearWarp (r := r.setBucket ⟨edf.bound, w⟩
          { r.bucketAt ⟨edf.bound, w⟩ with warpRemaining := 0 }) ⟨edf.bound, w⟩
          (warpOk.lt_of_runnable warpRunnable) (by simpa using set)
        exact Or.inr ⟨_, rfl, clearedInv, fewer.trans_le spentCount, spentSame.trans clearedSame⟩

/-- The loop at `evaluate_root_buckets` returns within one pass more than the
warp bits and starvation flags set when it starts, with a runnable root bucket
of the kind asked for and without a panic of
`sched_clutch_root_bucket_deadline_update`. -/
theorem evaluateRootBuckets_spec {type : HighestRootBucketType} (online : 0 < tun.onlineProcessorCount)
    (noWrap : NoWrap tun ts) (highest : Int) {fuel : Nat} :
    ∀ {r : Root}, RootInv tun ts r → TimeshareRunnable r type → r.pending < fuel →
      ∃ rb r', evaluateRootBuckets tun ts type highest fuel r = some (rb, r') ∧ Selected tun ts type r rb r' := by
  induction fuel with
  | zero => exact fun _ _ enough => absurd enough (Nat.not_lt_zero _)
  | succ fuel ih =>
    intro r inv timeshare enough
    rcases evaluateRootBuckets_pass online noWrap inv timeshare highest fuel with
      returned | ⟨next, again, nextInv, fewer, same⟩
    · exact returned
    · -- the pass cleared a flag: the rest of the loop has one pass less and one flag less
      obtain ⟨rb, r', returned, selected⟩ := ih nextInv (same.timeshare timeshare) (by omega)
      exact ⟨rb, r', again.trans returned, selected.back same⟩

end Pass

section Highest

variable {tun : RootTunables} {ts : UInt64} {r : Root} {type : HighestRootBucketType}

/-- What `sched_clutch_root_highest_root_bucket` is for: NULL exactly when no
root bucket of the kind asked for is runnable, and otherwise one that is. -/
def HighestRootBucketOk (r : Root) (type : HighestRootBucketType) (res : Option RootBucketRef) : Prop :=
  (res = none ↔ ∀ rb : RootBucketRef, type.takes rb.bound = true → ¬r.Runnable rb) ∧
    ∀ rb ∈ res, type.takes rb.bound = true ∧ r.Runnable rb

theorem highestRootBucketOk_some {rb : RootBucketRef} (takes : type.takes rb.bound = true) (runnable : r.Runnable rb) :
    HighestRootBucketOk r type (some rb) :=
  ⟨⟨nofun, fun nothing => absurd runnable (nothing rb takes)⟩, fun _ found => by cases found; exact ⟨takes, runnable⟩⟩

/-- Below `TH_BUCKET_SCHED_MAX`, `bitmap_lsb_first` of a runnable bitmap finds
nothing exactly when no root bucket of the kind is runnable. -/
theorem bitmapLsbFirst_runnable {now : UInt64} (inv : RootInv tun now r) (bound : Bool) :
    bitmapLsbFirst (r.side bound).runnableBitmap bucketSchedMax = -1 ↔ ∀ b, ¬r.Runnable ⟨bound, b⟩ := by
  rcases bitmapLsbFirst_spec (r.side bound).runnableBitmap bucketSchedMax with ⟨none, clear⟩ | ⟨i, found, -, set, -⟩
  · refine iff_of_true none fun b runnable => ?_
    have small := ((inv bound).bucket_ok b).lt_of_runnable runnable
    rw [Root.Runnable, clear b small] at runnable
    cases runnable
  · refine iff_of_false (by omega) fun nothing => nothing i set

theorem bitmapLsbFirst_eq_neg_one_or_nonneg (map : Nat → Bool) (nbits : Nat) :
    bitmapLsbFirst map nbits = -1 ∨ 0 ≤ bitmapLsbFirst map nbits := by
  rcases bitmapLsbFirst_spec map nbits with ⟨none, -⟩ | ⟨i, found, -⟩
  · exact Or.inl none
  · exact Or.inr (by omega)

/-- `highest_runnable_bucket` is `-1` exactly when no root bucket of the kind
asked for is runnable. -/
theorem highestRunnableBucket_eq_neg_one {now : UInt64} (inv : RootInv tun now r) :
    highestRunnableBucket r type = -1 ↔ ∀ rb : RootBucketRef, type.takes rb.bound = true → ¬r.Runnable rb := by
  have unbound := bitmapLsbFirst_runnable inv false
  have bound := bitmapLsbFirst_runnable inv true
  cases type with
  | unboundOnly =>
    show bitmapLsbFirst (r.side false).runnableBitmap bucketSchedMax = -1 ↔ _
    rw [unbound]
    constructor
    · rintro nothing ⟨side, b⟩ takes
      cases side
      · exact nothing b
      · cases takes
    · exact fun nothing b => nothing ⟨false, b⟩ rfl
  | all =>
    -- the lower of the two lowest runnable buckets is `-1` only when both are
    have both : highestRunnableBucket r .all = -1 ↔
        bitmapLsbFirst (r.side false).runnableBitmap bucketSchedMax = -1 ∧
          bitmapLsbFirst (r.side true).runnableBitmap bucketSchedMax = -1 := by
      have unboundRange := bitmapLsbFirst_eq_neg_one_or_nonneg (r.side false).runnableBitmap bucketSchedMax
      have boundRange := bitmapLsbFirst_eq_neg_one_or_nonneg (r.side true).runnableBitmap bucketSchedMax
      simp only [highestRunnableBucket, Root.side_false, Root.side_true] at unboundRange boundRange ⊢
      split_ifs <;> omega
    rw [both, unbound, bound]
    constructor
    · rintro ⟨unboundNone, boundNone⟩ ⟨side, b⟩ -
      cases side
      · exact unboundNone b
      · exact boundNone b
    · exact fun nothing => ⟨fun b => nothing ⟨false, b⟩ rfl, fun b => nothing ⟨true, b⟩ rfl⟩

/-- `sched_clutch_root_bucket_highest_clutch_bucket` of a root bucket whose run
queue holds something is not NULL. -/
theorem rootBucketHighestClutchBucket_isSome {levels : Nat} {urgent : Nat → Bool} {x : RootBucket}
    (ok : RunQueue.Ok levels urgent x.runq) (held : x.runq.count ≠ 0) :
    ∃ clutchBucket, rootBucketHighestClutchBucket x = some clutchBucket := by
  obtain ⟨h, highq, nonempty⟩ := ok.highq_held held
  have positive : x.runq.count > 0 := lt_of_le_of_ne ok.count_nonneg (Ne.symm held)
  obtain ⟨first, rest, split⟩ := List.exists_cons_of_ne_nil nonempty
  refine ⟨first, ?_⟩
  rw [rootBucketHighestClutchBucket, if_neg held, clutchBucketRunqPeek, if_pos positive, highq, Int.toNat_natCast,
    split]
  rfl

/-- `sched_clutch_root_unbound_select_aboveui` dereferences no NULL; it picks
the unbound above-UI root bucket only when that is runnable, and passes it
over only when the unbound foreground one is runnable too. -/
theorem rootUnboundSelectAboveui_spec {now : UInt64} (inv : RootInv tun now r) :
    ∃ aboveui, rootUnboundSelectAboveui r = some aboveui ∧
      (aboveui = true → r.Runnable ⟨false, bucketFixpri⟩) ∧
      (aboveui = false → r.Runnable ⟨false, bucketFixpri⟩ → r.Runnable ⟨false, bucketShareFg⟩) := by
  have held : ∀ b, r.Runnable ⟨false, b⟩ →
      ∃ clutchBucket, rootBucketHighestClutchBucket (r.unbound.buckets b) = some clutchBucket := fun b runnable =>
    rootBucketHighestClutchBucket_isSome ((inv false).bucket_ok b).runq_ok
      (((inv false).bucket_ok b).runnable_iff.mp runnable).2
  unfold rootUnboundSelectAboveui
  split
  · rename_i aboveui
    split
    · exact ⟨true, rfl, fun _ => aboveui, nofun⟩
    · rename_i shareFg
      have shareFg : r.Runnable ⟨false, bucketShareFg⟩ := by simpa [Root.Runnable] using shareFg
      obtain ⟨top, topPeek⟩ := held bucketFixpri aboveui
      obtain ⟨foreground, foregroundPeek⟩ := held bucketShareFg shareFg
      rw [topPeek, Option.bind_some, foregroundPeek, Option.map_some]
      exact ⟨_, rfl, fun _ => aboveui, fun _ _ => shareFg⟩
  · rename_i idle
    exact ⟨false, rfl, nofun, fun _ aboveui => absurd aboveui idle⟩

/-- `sched_clutch_root_bound_select_aboveui` picks the bound above-UI root
bucket only when that is runnable, and passes it over only when the bound
foreground one is runnable too: its `highq` is then above `NOPRI`. -/
theorem rootBoundSelectAboveui_spec {now : UInt64} (inv : RootInv tun now r) :
    (rootBoundSelectAboveui r = true → r.Runnable ⟨true, bucketFixpri⟩) ∧
      (rootBoundSelectAboveui r = false → r.Runnable ⟨true, bucketFixpri⟩ → r.Runnable ⟨true, bucketShareFg⟩) := by
  have aboveuiOk := (inv true).bucket_ok bucketFixpri
  have shareFgOk := (inv true).bucket_ok bucketShareFg
  unfold rootBoundSelectAboveui
  dsimp only
  split
  · rename_i empty
    exact ⟨nofun, fun _ aboveui => ((aboveuiOk.runnable_iff.mp aboveui).2 empty).elim⟩
  · rename_i held
    refine ⟨fun _ => aboveuiOk.runnable_iff.mpr ⟨by decide, held⟩, fun lower _ => ?_⟩
    obtain ⟨h, highq, -⟩ := aboveuiOk.runq_ok.highq_held held
    refine shareFgOk.runnable_iff.mpr ⟨by decide, fun empty => ?_⟩
    have idle := shareFgOk.runq_ok.highq_of_count_eq_zero empty
    simp only [Root.side_true] at highq idle
    simp only [highq, idle, Sched.noPri, decide_eq_false_iff_not] at lower
    omega

/-- Where neither above-UI root bucket is picked, some timeshare root bucket of
the kind asked for is runnable. -/
theorem timeshareRunnable_of_passed (someRunnable : ∃ rb : RootBucketRef, type.takes rb.bound = true ∧ r.Runnable rb)
    (unbound : r.Runnable ⟨false, bucketFixpri⟩ → r.Runnable ⟨false, bucketShareFg⟩)
    (bound : type = .all → r.Runnable ⟨true, bucketFixpri⟩ → r.Runnable ⟨true, bucketShareFg⟩) :
    TimeshareRunnable r type := by
  obtain ⟨⟨side, b⟩, takes, runnable⟩ := someRunnable
  by_cases timeshare : b = bucketFixpri
  · subst timeshare
    cases side
    · exact ⟨⟨false, bucketShareFg⟩, takes, by decide, unbound runnable⟩
    · cases type with
      | unboundOnly => cases takes
      | all => exact ⟨⟨true, bucketShareFg⟩, rfl, by decide, bound rfl runnable⟩
  · exact ⟨⟨side, b⟩, takes, timeshare, runnable⟩

/-- `sched_clutch_root_highest_root_bucket`, given more passes than flags set,
returns: NULL exactly when nothing of the kind asked for is runnable, and
otherwise a runnable root bucket of that kind, keeping the invariant. -/
theorem rootHighestRootBucket_spec (online : 0 < tun.onlineProcessorCount) (noWrap : NoWrap tun ts)
    (inv : RootInv tun ts r) (type : HighestRootBucketType) {fuel : Nat} (enough : r.pending < fuel) :
    ∃ res r', rootHighestRootBucket tun fuel r ts type = some (res, r') ∧ RootInv tun ts r' ∧
      HighestRootBucketOk r type res := by
  have nothing : highestRunnableBucket r type = -1 ↔ _ := highestRunnableBucket_eq_neg_one inv
  obtain ⟨unboundAboveui, unboundSelect, unboundPicked, unboundPassed⟩ := rootUnboundSelectAboveui_spec inv
  obtain ⟨boundPicked, boundPassed⟩ := rootBoundSelectAboveui_spec inv
  -- the EDF loop, reached once neither above-UI root bucket is picked
  have evaluate : TimeshareRunnable r type → ∃ rb r',
      evaluateRootBuckets tun ts type (highestRunnableBucket r type) fuel r = some (rb, r') ∧
        Selected tun ts type r rb r' := fun timeshare =>
    evaluateRootBuckets_spec online noWrap _ inv timeshare enough
  unfold rootHighestRootBucket
  dsimp only
  split
  · rename_i idle
    exact ⟨none, r, rfl, inv, iff_of_true rfl (nothing.mp idle), nofun⟩
  · rename_i busy
    have someRunnable : ∃ rb : RootBucketRef, type.takes rb.bound = true ∧ r.Runnable rb := by
      by_contra idle
      exact busy (nothing.mpr fun rb takes runnable => idle ⟨rb, takes, runnable⟩)
    rw [unboundSelect, Option.bind_some]
    cases type with
    | unboundOnly =>
      dsimp only
      split
      · rename_i picked
        exact ⟨_, r, rfl, inv, highestRootBucketOk_some rfl (unboundPicked picked)⟩
      · rename_i passed
        obtain ⟨rb, r', returned, selected⟩ :=
          evaluate (timeshareRunnable_of_passed someRunnable (unboundPassed (by simpa using passed)) nofun)
        rw [returned]
        exact ⟨some rb, r', rfl, selected.inv, highestRootBucketOk_some selected.takes selected.runnable⟩
    | all =>
      dsimp only
      split
      · -- both above-UI root buckets are runnable: the higher thread picks one
        rename_i both
        obtain ⟨clutchBucket, peek⟩ := rootBucketHighestClutchBucket_isSome (x := r.unbound.buckets bucketFixpri)
          ((inv false).bucket_ok bucketFixpri).runq_ok
          (((inv false).bucket_ok bucketFixpri).runnable_iff.mp (unboundPicked both.1)).2
        rw [peek, Option.map_some]
        refine ⟨_, r, rfl, inv, ?_⟩
        split
        · exact highestRootBucketOk_some rfl (boundPicked both.2)
        · exact highestRootBucketOk_some rfl (unboundPicked both.1)
      · split
        · rename_i picked
          exact ⟨_, r, rfl, inv, highestRootBucketOk_some rfl (unboundPicked picked)⟩
        · split
          · rename_i picked
            exact ⟨_, r, rfl, inv, highestRootBucketOk_some rfl (boundPicked picked)⟩
          · rename_i unboundPassedOver boundPassedOver
            obtain ⟨rb, r', returned, selected⟩ := evaluate (timeshareRunnable_of_passed someRunnable
              (unboundPassed (by simpa using unboundPassedOver)) fun _ => boundPassed (by simpa using boundPassedOver))
            rw [returned]
            exact ⟨some rb, r', rfl, selected.inv, highestRootBucketOk_some selected.takes selected.runnable⟩

end Highest

section Run

variable {tun : RootTunables}

/-- Each event keeps the invariant, from the latest timestamp before it to its
own, where no deadline computed at its timestamp wraps. -/
theorem rootStep_inv (online : 0 < tun.onlineProcessorCount) {now : UInt64} {r r' : Root} {e : RootEvent}
    (inv : RootInv tun now r) (later : now.toNat ≤ e.timestamp.toNat) (noWrap : NoWrap tun e.timestamp)
    (stepped : rootStep tun r e = some r') : RootInv tun e.timestamp r' := by
  cases e with
  | clutchBucketRunnable clutchBucket bucket priority maxSchedPri headq timestamp =>
    simp only [rootStep] at stepped
    split at stepped
    · exact bucketHierarchyInsert_inv (r := { r with
        clutchBucketPriority := Function.update r.clutchBucketPriority clutchBucket priority
        clutchBucketMaxSchedPri := Function.update r.clutchBucketMaxSchedPri clutchBucket maxSchedPri })
        inv later noWrap ‹_› stepped
    · cases stepped
  | clutchBucketUpdate clutchBucket bucket priority maxSchedPri headq samepriRr timestamp =>
    simp only [rootStep] at stepped
    split at stepped
    · exact clutchBucketUpdate_inv (r := { r with
        clutchBucketMaxSchedPri := Function.update r.clutchBucketMaxSchedPri clutchBucket maxSchedPri })
        inv later stepped
    · cases stepped
  | clutchBucketEmpty clutchBucket bucket priority timestamp =>
    simp only [rootStep] at stepped
    split at stepped
    · obtain ⟨emptied, removed, rfl⟩ := Option.map_eq_some_iff.mp stepped
      have emptiedInv := bucketHierarchyRemove_inv inv later ‹_› removed
      exact emptiedInv
    · cases stepped
  | boundThreadInsert thread bucket schedPri tailq timestamp =>
    simp only [rootStep] at stepped
    split at stepped
    · exact boundThreadInsert_inv (r := { r with threadSchedPri := Function.update r.threadSchedPri thread schedPri })
        inv later noWrap ‹_› stepped
    · cases stepped
  | boundThreadRemove thread bucket timestamp =>
    simp only [rootStep] at stepped
    split at stepped
    · exact boundThreadRemove_inv inv later ‹_› stepped
    · cases stepped
  | highestRootBucket type timestamp =>
    simp only [RootEvent.timestamp] at later noWrap ⊢
    obtain ⟨res, selected, found, selectedInv, -⟩ :=
      rootHighestRootBucket_spec online noWrap (inv.mono later) type r.pending_lt_rootSelectFuel
    rw [rootStep, found, Option.map_some] at stepped
    cases stepped
    exact selectedInv

/-- A run whose timestamps never go back and where no deadline wraps keeps the
invariant, up to any timestamp no earlier than its own. -/
theorem rootRun_inv (online : 0 < tun.onlineProcessorCount) {ts : UInt64} :
    ∀ {events : List RootEvent} {now : UInt64} {r r' : Root}, RootInv tun now r → now.toNat ≤ ts.toNat →
      (∀ e ∈ events, now.toNat ≤ e.timestamp.toNat ∧ e.timestamp.toNat ≤ ts.toNat ∧ NoWrap tun e.timestamp) →
      events.Pairwise (fun e e' => e.timestamp.toNat ≤ e'.timestamp.toNat) →
      rootRun tun r events = some r' → RootInv tun ts r'
  | [], _, _, _, inv, later, _, _, ran => by
    cases ran
    exact inv.mono later
  | e :: events, _, _, _, inv, _, timed, ordered, ran => by
    obtain ⟨after, upTo, noWrap⟩ := timed e List.mem_cons_self
    obtain ⟨stepped, step, rest⟩ := Option.bind_eq_some_iff.mp ran
    have ordered' := List.pairwise_cons.mp ordered
    refine rootRun_inv online (rootStep_inv online inv after noWrap step) upTo (fun e' member => ?_) ordered'.2 rest
    obtain ⟨-, upTo', noWrap'⟩ := timed e' (List.mem_cons_of_mem e member)
    exact ⟨ordered'.1 e' member, upTo', noWrap'⟩

/-- From `sched_clutch_root_init` through any run whose timestamps never go
back and where no deadline wraps, every queued timeshare root bucket's deadline
is at most the latest timestamp plus its WCEL, and
`sched_clutch_root_highest_root_bucket` at a timestamp no earlier returns within
one pass more than the warp bits and starvation flags set, without a panic of
`sched_clutch_root_bucket_deadline_update`: NULL exactly when nothing of the kind
asked for is runnable, and otherwise a runnable root bucket of that kind. -/
theorem rootHighestRootBucket_reachable (online : 0 < tun.onlineProcessorCount) {events : List RootEvent}
    {r : Root} (run : rootRun tun (rootInit tun) events = some r)
    (ordered : events.Pairwise fun e e' => e.timestamp.toNat ≤ e'.timestamp.toNat)
    (noWrap : ∀ e ∈ events, NoWrap tun e.timestamp) {ts : UInt64}
    (after : ∀ e ∈ events, e.timestamp.toNat ≤ ts.toNat) (noWrapNow : NoWrap tun ts) (type : HighestRootBucketType) :
    (∀ bound b, b ∈ Heap.membersOf (r.side bound).rootBuckets →
      ((r.side bound).buckets b).deadline.toNat ≤ ts.toNat + (tun.rootBucketWcel b).toNat) ∧
    ∀ fuel, r.pending < fuel →
      ∃ res r', rootHighestRootBucket tun fuel r ts type = some (res, r') ∧ HighestRootBucketOk r type res := by
  have inv := rootRun_inv online rootInit_inv (Nat.zero_le _)
    (fun e member => ⟨Nat.zero_le _, after e member, noWrap e member⟩) ordered run
  refine ⟨fun bound b queued => ?_, fun fuel enough => ?_⟩
  · have ok := (inv bound).bucket_ok b
    obtain ⟨timeshare, runnable⟩ := ok.queued_iff.mp queued
    exact ok.deadline_le timeshare (Or.inl runnable)
  · obtain ⟨res, r', found, -, ok⟩ := rootHighestRootBucket_spec online noWrapNow inv type enough
    exact ⟨res, r', found, ok⟩

/-- The root-level tunables on a 24 MHz timebase, as on arm64 outside macOS:
`sched_clutch_root_bucket_wcel_us`, `sched_clutch_root_bucket_warp_us` and
`sched_clutch_thread_quantum_us` at 24 ticks a microsecond, the urgent
priorities of `preempt_pri_init`, and four processors online. -/
def rootTunables24MHz : RootTunables where
  rootBucketWcel
    | 1 => 0
    | 2 => 900000
    | 3 => 1800000
    | 4 => 3600000
    | 5 => 6000000
    | _ => ~~~0
  rootBucketWarp
    | 1 => 192000
    | 2 => 96000
    | 3 => 48000
    | 4 => 24000
    | 5 => 0
    | _ => ~~~0
  threadQuantum
    | 0 => 240000
    | 1 => 240000
    | 2 => 192000
    | 3 => 144000
    | 4 => 96000
    | _ => 48000
  priorityIsUrgent p := (47 ≤ p && p < 80) || (92 ≤ p && p ≤ 127)
  onlineProcessorCount := 4

/-- No deadline wraps at a timestamp more than 250 ms before the end of the
`uint64_t` range. -/
theorem rootTunables24MHz_noWrap {ts : UInt64} (early : ts.toNat + 6000000 < 2 ^ 64) :
    NoWrap rootTunables24MHz ts := by
  intro b low high
  unfold bucketShareFg at low
  unfold bucketSchedMax at high
  interval_cases b <;> simp [rootTunables24MHz] <;> omega

/-- A foreground clutch bucket and a bound utility thread made runnable, then a selection. -/
def sampleRootEvents : List RootEvent :=
  [.clutchBucketRunnable 7 1 31 31 false 1000, .boundThreadInsert 9 4 20 true 2000, .highestRootBucket .all 3000]

theorem rootHighestRootBucket_reachable_sample :
    ∃ r, rootRun rootTunables24MHz (rootInit rootTunables24MHz) sampleRootEvents = some r ∧
      (∀ bound b, b ∈ Heap.membersOf (r.side bound).rootBuckets →
        ((r.side bound).buckets b).deadline.toNat ≤ (4000 : UInt64).toNat + (rootTunables24MHz.rootBucketWcel b).toNat) ∧
      ∀ fuel, r.pending < fuel → ∃ res r', rootHighestRootBucket rootTunables24MHz fuel r 4000 .all = some (res, r') ∧
        HighestRootBucketOk r .all res := by
  obtain ⟨r, run⟩ : ∃ r, rootRun rootTunables24MHz (rootInit rootTunables24MHz) sampleRootEvents = some r :=
    Option.isSome_iff_exists.mp (by decide)
  refine ⟨r, run, rootHighestRootBucket_reachable (by decide) run (by decide) ?_ (by decide) ?_ .all⟩
  · intro e member
    exact rootTunables24MHz_noWrap (by simp [sampleRootEvents] at member; rcases member with rfl | rfl | rfl <;> decide)
  · exact rootTunables24MHz_noWrap (by decide)

/-- Where a deadline wraps, `sched_clutch_root_bucket_deadline_update` panics:
a background root bucket made runnable 6000001 ticks before the end of the
`uint64_t` range gets the last deadline there is, and a selection at the last
tick finds it in the natural order and moves its deadline to a wrapped one,
which is earlier. -/
theorem rootHighestRootBucket_deadline_wraps :
    ∃ r, rootRun rootTunables24MHz (rootInit rootTunables24MHz)
        [.clutchBucketRunnable 0 5 0 0 false 18446744073703551615] = some r ∧
      ∀ fuel, rootHighestRootBucket rootTunables24MHz fuel r 18446744073709551615 .all = none := by
  refine ⟨_, (Option.some_get (by decide)).symm, fun fuel => ?_⟩
  cases fuel <;> rfl

/-- With no processor online, the starvation window of
`sched_clutch_root_highest_root_bucket` divides by zero: a background root
bucket with an earlier deadline than a runnable utility one is put into
starvation avoidance by one selection, and the next one computes its window. -/
theorem rootHighestRootBucket_no_processor_online :
    ∃ r, rootRun { rootTunables24MHz with onlineProcessorCount := 0 }
        (rootInit { rootTunables24MHz with onlineProcessorCount := 0 })
        [.clutchBucketRunnable 0 5 0 0 false 0, .clutchBucketRunnable 1 4 0 0 false 3000000,
          .highestRootBucket .all 3000000] = some r ∧
      ∀ fuel, rootHighestRootBucket { rootTunables24MHz with onlineProcessorCount := 0 } fuel r 3000001 .all = none := by
  refine ⟨_, (Option.some_get (by decide)).symm, fun fuel => ?_⟩
  cases fuel <;> rfl

end Run

end Xnu.Clutch
