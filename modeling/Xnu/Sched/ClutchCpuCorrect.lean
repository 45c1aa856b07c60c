import Mathlib
import Xnu.Sched.ClutchCpu

namespace Xnu.Clutch

/-! What the accounting of a bucket group keeps over every run of calls: the
score `sched_clutch_interactivity_from_cpu_data` computes, and so the stored
one, stays within `[0, 2 * interactive_pri]`, and the priority of a clutch
bucket stays below `NRQS_MAX`; the ageout returns its interval count modulo 256;
and a group that never blocks drives `sched_clutch_bucket_group_cpu_pending_adjust`
into a division by zero. -/

variable {tun : Tunables}

section Frame

/-! The fields each call leaves as they are. -/

variable {g : BucketGroup}

@[simp] theorem cpuUsageUpdate_bucket (delta : UInt64) : (cpuUsageUpdate tun g delta).bucket = g.bucket := by
  unfold cpuUsageUpdate; split <;> rfl

@[simp] theorem cpuUsageUpdate_interactivityData (delta : UInt64) :
    (cpuUsageUpdate tun g delta).interactivityData = g.interactivityData := by
  unfold cpuUsageUpdate; split <;> rfl

@[simp] theorem runCountInc_bucket (ctime : UInt64) : (runCountInc tun g ctime).1.bucket = g.bucket := by
  unfold runCountInc; dsimp only; split <;> rfl

@[simp] theorem runCountInc_interactivityData (ctime : UInt64) :
    (runCountInc tun g ctime).1.interactivityData = g.interactivityData := by
  unfold runCountInc; dsimp only; split <;> rfl

/-- The ageout moves the pending timestamp only. -/
theorem pendingAgeout_frame {bucketLoad : Int32} {timestamp : UInt64} {g' : BucketGroup} {n : UInt8}
    (aged : pendingAgeout tun bucketLoad g timestamp = some (g', n)) : g' = { g with pendingData := g'.pendingData } := by
  unfold pendingAgeout at aged
  dsimp only at aged
  split at aged
  · cases aged; rfl
  · split at aged
    · cases aged; rfl
    · obtain ⟨_, -, same⟩ := Option.map_eq_some_iff.mp aged
      cases same; rfl

/-- The adjustment changes the two CPU values only. -/
theorem cpuAdjust_frame {n : UInt8} {g' : BucketGroup} (adjusted : cpuAdjust tun g n = some g') :
    g' = { g with cpuUsed := g'.cpuUsed, cpuBlocked := g'.cpuBlocked } := by
  unfold cpuAdjust at adjusted
  split at adjusted
  · cases adjusted; rfl
  · obtain ⟨_, -, same⟩ := Option.map_eq_some_iff.mp adjusted
    cases same; rfl

/-- What a score calculation can do: keep the fixed-priority group, or age,
adjust, compute the score and store it when `timestamp` is later. -/
theorem interactivityScoreCalculate_cases {bucketLoad : Int32} {timestamp : UInt64} {g' : BucketGroup} {s : UInt8}
    (computed : interactivityScoreCalculate tun bucketLoad g timestamp = some (g', s)) :
    (g.bucket = .fixpri ∧ g' = g ∧ s = g.interactivityData.count.toUInt8) ∨
      ∃ aged n adjusted score, g.bucket ≠ .fixpri ∧ pendingAgeout tun bucketLoad g timestamp = some (aged, n) ∧
        cpuAdjust tun aged n = some adjusted ∧ interactivityFromCpuData tun adjusted = some score ∧
        ((adjusted.interactivityData.timestamp < timestamp ∧
            g' = { adjusted with interactivityData := ⟨score.toUInt64, timestamp⟩ } ∧ s = score) ∨
          (¬ adjusted.interactivityData.timestamp < timestamp ∧ g' = adjusted ∧
            s = adjusted.interactivityData.count.toUInt8)) := by
  unfold interactivityScoreCalculate at computed
  split at computed
  · cases computed
    exact .inl ⟨‹_›, rfl, rfl⟩
  · right
    simp only [bind, Option.bind_eq_some_iff] at computed
    obtain ⟨⟨aged, n⟩, aging, adjusted, adjusting, score, scoring, stored⟩ := computed
    refine ⟨aged, n, adjusted, score, ‹_›, aging, adjusting, scoring, ?_⟩
    split at stored
    · cases stored
      exact .inl ⟨‹_›, rfl, rfl⟩
    · cases stored
      exact .inr ⟨‹_›, rfl, rfl⟩

end Frame

section Score

/-- A `uint64_t` product `pri * x` divided by some `d ≥ x` is at most `pri`,
whether the product wraps or not. -/
theorem toNat_mul_div_le (pri x d : UInt64) (le : x.toNat ≤ d.toNat) : ((pri * x) / d).toNat ≤ pri.toNat := by
  rw [UInt64.toNat_div, UInt64.toNat_mul]
  rcases Nat.eq_zero_or_pos d.toNat with zero | pos
  · simp [zero]
  · calc pri.toNat * x.toNat % 2 ^ 64 / d.toNat
        ≤ pri.toNat * x.toNat / d.toNat := Nat.div_le_div_right (Nat.mod_le _ _)
      _ ≤ pri.toNat * d.toNat / d.toNat := Nat.div_le_div_right (Nat.mul_le_mul_left _ le)
      _ = pri.toNat := Nat.mul_div_cancel _ pos

variable (small : tun.interactivePri.toNat ≤ 127)
include small

/-- `sched_clutch_interactivity_from_cpu_data` never divides by zero, and its
score is at most `2 * interactive_pri` for every `cpu_used` and `cpu_blocked`
once the stored score is. -/
theorem interactivityFromCpuData_le (g : BucketGroup)
    (stored : g.interactivityData.count.toNat ≤ 2 * tun.interactivePri.toNat) :
    ∃ score, interactivityFromCpuData tun g = some score ∧ score.toNat ≤ 2 * tun.interactivePri.toNat := by
  unfold interactivityFromCpuData
  dsimp only
  split
  · refine ⟨_, rfl, ?_⟩
    rw [UInt64.toNat_toUInt8]
    omega
  · split
    · -- the group blocks more than it runs: `cpu_blocked` is the divisor
      rename_i blocks
      have below : g.cpuUsed.toNat < g.cpuBlocked.toNat := UInt64.lt_iff_toNat_lt.mp blocks
      have quotient := toNat_mul_div_le tun.interactivePri.toUInt64 (g.cpuBlocked - g.cpuUsed) g.cpuBlocked
        (by rw [UInt64.toNat_sub_of_le _ _ (UInt64.le_of_lt blocks)]; omega)
      rw [udiv_of_pos (by omega), Option.map_some]
      refine ⟨_, rfl, ?_⟩
      simp only [UInt64.toNat_toUInt8, UInt64.toNat_add, UInt8.toNat_toUInt64] at quotient ⊢
      omega
    · -- otherwise `cpu_used` is the divisor, and it is not zero
      rename_i idle runs
      have le : g.cpuBlocked.toNat ≤ g.cpuUsed.toNat := by
        simpa [UInt64.lt_iff_toNat_lt] using runs
      have pos : 0 < g.cpuUsed.toNat := by
        by_contra zero
        exact idle ⟨UInt64.toNat_inj.mp (by simp; omega), UInt64.toNat_inj.mp (by simp; omega)⟩
      have quotient := toNat_mul_div_le tun.interactivePri.toUInt64 g.cpuBlocked g.cpuUsed le
      rw [udiv_of_pos pos, Option.map_some]
      refine ⟨_, rfl, ?_⟩
      simp only [UInt64.toNat_toUInt8, UInt8.toNat_toUInt64] at quotient ⊢
      omega

/-- The stored score is within `[0, 2 * interactive_pri]`. -/
def ScoreInRange (tun : Tunables) (g : BucketGroup) : Prop :=
  g.interactivityData.count.toNat ≤ 2 * tun.interactivePri.toNat

omit small in
theorem bucketGroupInit_scoreInRange (bucket : Bucket) : ScoreInRange tun (bucketGroupInit tun bucket) := by
  have lt := tun.interactivePri.toNat_lt
  simp only [ScoreInRange, bucketGroupInit, UInt64.toNat_mul, UInt8.toNat_toUInt64, UInt64.reduceToNat]
  omega

/-- A score calculation returns a score in range and keeps the stored one in range. -/
theorem interactivityScoreCalculate_le {bucketLoad : Int32} {g g' : BucketGroup} {timestamp : UInt64} {s : UInt8}
    (inRange : ScoreInRange tun g) (computed : interactivityScoreCalculate tun bucketLoad g timestamp = some (g', s)) :
    ScoreInRange tun g' ∧ s.toNat ≤ 2 * tun.interactivePri.toNat := by
  rcases interactivityScoreCalculate_cases computed with
    ⟨-, rfl, rfl⟩ | ⟨aged, n, adjusted, score, -, aging, adjusting, scoring, stored⟩
  · exact ⟨inRange, by rw [UInt64.toNat_toUInt8]; exact Nat.le_trans (Nat.mod_le _ _) inRange⟩
  · -- the ageout and the adjustment leave the stored score as it was
    have kept : adjusted.interactivityData = g.interactivityData := by
      rw [cpuAdjust_frame adjusting, pendingAgeout_frame aging]
    obtain ⟨_, scored, bound⟩ := interactivityFromCpuData_le small adjusted (kept ▸ inRange)
    cases scoring.symm.trans scored
    rcases stored with ⟨-, rfl, rfl⟩ | ⟨-, rfl, rfl⟩
    · exact ⟨by simpa [ScoreInRange] using bound, bound⟩
    · have unchanged : ScoreInRange tun g' := by rw [ScoreInRange, kept]; exact inRange
      exact ⟨unchanged, by rw [UInt64.toNat_toUInt8]; exact Nat.le_trans (Nat.mod_le _ _) unchanged⟩

/-- Every call keeps the stored score in range. -/
theorem step_scoreInRange {g g' : BucketGroup} {e : Event} (inRange : ScoreInRange tun g)
    (stepped : step tun g e = some g') : ScoreInRange tun g' := by
  cases e with
  | cpuUsageUpdate delta => cases stepped; simpa [ScoreInRange] using inRange
  | runCountInc ctime => cases stepped; simpa [ScoreInRange] using inRange
  | runCountDec ctime => cases stepped; exact inRange
  | thrCountInc timestamp => cases stepped; exact inRange
  | thrCountDec timestamp => cases stepped; exact inRange
  | interactivityScoreCalculate bucketLoad timestamp =>
    obtain ⟨⟨_, s⟩, computed, rfl⟩ := Option.map_eq_some_iff.mp stepped
    exact (interactivityScoreCalculate_le small inRange computed).1

theorem run_scoreInRange (es : List Event) {g g' : BucketGroup} (inRange : ScoreInRange tun g)
    (ran : run tun g es = some g') : ScoreInRange tun g' := by
  induction es generalizing g with
  | nil => cases ran; exact inRange
  | cons e es ih =>
    obtain ⟨next, stepped, rest⟩ := Option.bind_eq_some_iff.mp ran
    exact ih (step_scoreInRange small inRange stepped) rest

end Score

section Adjust

variable {g : BucketGroup}

/-- With no pending thread the ageout returns no interval and changes nothing. -/
theorem pendingAgeout_of_invalid (bucketLoad : Int32) (timestamp : UInt64)
    (invalid : g.pendingData.timestamp = pendingInvalid) : pendingAgeout tun bucketLoad g timestamp = some (g, 0) := by
  unfold pendingAgeout
  exact if_pos (Or.inr (Or.inl invalid))

/-- Once the window is full, both values are scaled down before the pending adjustment. -/
theorem cpuAdjust_of_full (n : UInt8) (full : tun.adjustThreshold ≤ g.cpuUsed + g.cpuBlocked) :
    cpuAdjust tun g n = (cpuPendingAdjust tun (g.cpuUsed / adjustRatio) (g.cpuBlocked / adjustRatio) n).map
      fun cpuUsed => { g with cpuUsed := cpuUsed, cpuBlocked := g.cpuBlocked / adjustRatio } := by
  unfold cpuAdjust
  rw [if_neg fun ⟨_, below⟩ => absurd full (UInt64.not_le.mpr below), if_pos full]

/-- Where no product wraps, the pending adjustment never raises `cpu_used`. -/
theorem cpuPendingAdjust_le {cpuUsed cpuBlocked result : UInt64} {n : UInt8}
    (fits : tun.interactivePri.toNat * cpuBlocked.toNat * cpuUsed.toNat < 2 ^ 64)
    (divisorFits : tun.interactivePri.toNat * cpuBlocked.toNat + cpuUsed.toNat * n.toNat < 2 ^ 64)
    (adjusted : cpuPendingAdjust tun cpuUsed cpuBlocked n = some result) : result.toNat ≤ cpuUsed.toNat := by
  unfold cpuPendingAdjust at adjusted
  dsimp only at adjusted
  split at adjusted
  · -- the quotient `pri * blocked * used / (pri * blocked + used * n)`, at most `used`
    obtain ⟨-, rfl⟩ : _ ∧ _ = result := by
      unfold udiv at adjusted
      split at adjusted
      · cases adjusted
      · exact ⟨trivial, Option.some.inj adjusted⟩
    have priBlocked : tun.interactivePri.toNat * cpuBlocked.toNat < 2 ^ 64 := by omega
    have usedPending : cpuUsed.toNat * n.toNat < 2 ^ 64 := by omega
    rw [UInt64.toNat_div, UInt64.toNat_mul_of_lt, UInt64.toNat_mul_of_lt, UInt64.toNat_add_of_lt,
      UInt64.toNat_mul_of_lt, UInt64.toNat_mul_of_lt] <;> simp only [UInt64.toNat_mul_of_lt, UInt8.toNat_toUInt64, *]
    rcases Nat.eq_zero_or_pos (tun.interactivePri.toNat * cpuBlocked.toNat) with zero | pos
    · simp [zero]
    · calc tun.interactivePri.toNat * cpuBlocked.toNat * cpuUsed.toNat /
            (tun.interactivePri.toNat * cpuBlocked.toNat + cpuUsed.toNat * n.toNat)
          ≤ tun.interactivePri.toNat * cpuBlocked.toNat * cpuUsed.toNat / (tun.interactivePri.toNat * cpuBlocked.toNat) :=
            Nat.div_le_div_left (Nat.le_add_right _ _) pos
        _ = cpuUsed.toNat := Nat.mul_div_cancel_left _ pos
  · obtain ⟨adjustFactor, -, rfl⟩ := Option.map_eq_some_iff.mp adjusted
    split
    · exact Nat.zero_le _
    · rw [UInt64.toNat_sub_of_le _ _ (UInt64.not_lt.mp ‹_›)]
      omega

/-- With no pending interval and some blocked time, the pending adjustment
keeps `cpu_used`. -/
theorem cpuPendingAdjust_no_pending {cpuUsed cpuBlocked : UInt64} (priPos : 0 < tun.interactivePri.toNat)
    (blocked : 0 < cpuBlocked.toNat) (fits : tun.interactivePri.toNat * cpuBlocked.toNat * cpuUsed.toNat < 2 ^ 64) :
    cpuPendingAdjust tun cpuUsed cpuBlocked 0 = some cpuUsed := by
  unfold cpuPendingAdjust
  dsimp only
  split
  · rename_i blocks
    have used : 0 < cpuUsed.toNat := by have := UInt64.lt_iff_toNat_lt.mp blocks; omega
    have divisorFits : tun.interactivePri.toNat * cpuBlocked.toNat < 2 ^ 64 :=
      Nat.lt_of_le_of_lt (Nat.le_mul_of_pos_right _ used) fits
    have divisor : (tun.interactivePri.toUInt64 * cpuBlocked + cpuUsed * (0 : UInt8).toUInt64).toNat =
        tun.interactivePri.toNat * cpuBlocked.toNat := by
      simp only [show (0 : UInt8).toUInt64 = 0 from rfl, UInt64.mul_zero, UInt64.add_zero]
      rw [UInt64.toNat_mul_of_lt (by simpa using divisorFits), UInt8.toNat_toUInt64]
    rw [udiv_of_pos (by rw [divisor]; exact Nat.mul_pos priPos blocked)]
    congr 1
    apply UInt64.toNat_inj.mp
    rw [UInt64.toNat_div, divisor, UInt64.toNat_mul_of_lt, UInt64.toNat_mul_of_lt] <;>
      simp only [UInt8.toNat_toUInt64, UInt64.toNat_mul_of_lt, *]
    exact Nat.mul_div_cancel_left _ (Nat.mul_pos priPos blocked)
  · rw [udiv_of_pos (by simpa using priPos)]
    simp

/-- The division by zero: with no blocked time, no pending interval and some
CPU usage, the divisor `(interactive_pri * cpu_blocked) + (cpu_used * pending_intervals)`
is zero. -/
theorem cpuPendingAdjust_no_blocked {cpuUsed : UInt64} (used : 0 < cpuUsed.toNat) :
    cpuPendingAdjust tun cpuUsed 0 0 = none := by
  unfold cpuPendingAdjust
  rw [if_pos (UInt64.lt_iff_toNat_lt.mpr (by simpa using used))]
  simp

/-- Past its adjustment, a score calculation changes only the stored score. -/
theorem interactivityScoreCalculate_of_cpuAdjust {bucketLoad : Int32} {timestamp : UInt64} {aged adjusted : BucketGroup}
    {n : UInt8} (small : tun.interactivePri.toNat ≤ 127) (timeshare : g.bucket ≠ .fixpri)
    (aging : pendingAgeout tun bucketLoad g timestamp = some (aged, n)) (adjusting : cpuAdjust tun aged n = some adjusted)
    (inRange : ScoreInRange tun adjusted) :
    ∃ g' s, interactivityScoreCalculate tun bucketLoad g timestamp = some (g', s) ∧
      g' = { adjusted with interactivityData := g'.interactivityData } := by
  obtain ⟨score, scoring, -⟩ := interactivityFromCpuData_le small adjusted inRange
  unfold interactivityScoreCalculate
  simp only [timeshare, if_false, bind, aging, adjusting, scoring, Option.bind_some]
  split
  · exact ⟨_, _, rfl, rfl⟩
  · exact ⟨_, _, rfl, rfl⟩

/-- A score calculation whose adjustment divides by zero has no result. -/
theorem interactivityScoreCalculate_of_cpuAdjust_none {bucketLoad : Int32} {timestamp : UInt64} {aged : BucketGroup}
    {n : UInt8} (timeshare : g.bucket ≠ .fixpri) (aging : pendingAgeout tun bucketLoad g timestamp = some (aged, n))
    (adjusting : cpuAdjust tun aged n = none) : interactivityScoreCalculate tun bucketLoad g timestamp = none := by
  unfold interactivityScoreCalculate
  simp [timeshare, aging, adjusting]

end Adjust

section Spinning

/-! A group that never blocks: each round adds a threshold of CPU usage and
then calculates the score, with no thread pending. Its blocked time is divided
by 10 at every round and reaches 0 while `cpu_used` stays positive. -/

/-- `rounds` rounds of `delta` of CPU usage, each followed by a score calculation. -/
def spinning (delta : UInt64) (bucketLoad : Int32) (timestamp : UInt64) (rounds : Nat) : List Event :=
  (List.replicate rounds [.cpuUsageUpdate delta, .interactivityScoreCalculate bucketLoad timestamp]).flatten

theorem spinning_succ (delta : UInt64) (bucketLoad : Int32) (timestamp : UInt64) (rounds : Nat) :
    spinning delta bucketLoad timestamp (rounds + 1) =
      spinning delta bucketLoad timestamp rounds ++ spinning delta bucketLoad timestamp 1 := by
  rw [spinning, spinning, spinning, List.replicate_succ', List.flatten_append, List.replicate_one]

variable {g : BucketGroup} (bucketLoad : Int32) (timestamp : UInt64)
  (small : tun.interactivePri.toNat ≤ 127) (priPos : 0 < tun.interactivePri.toNat)
  (low : 10 ≤ tun.adjustThreshold.toNat)
  (fits : tun.interactivePri.toNat * tun.adjustThreshold.toNat * tun.adjustThreshold.toNat < 2 ^ 64)

/-- For a timeshare group, a CPU-usage update of the whole threshold adds it. -/
theorem cpuUsageUpdate_threshold (timeshare : g.bucket ≠ .fixpri) :
    cpuUsageUpdate tun g tun.adjustThreshold = { g with cpuUsed := g.cpuUsed + tun.adjustThreshold } := by
  rw [cpuUsageUpdate, if_neg timeshare, UInt64.min_def, if_pos (UInt64.le_refl _)]

include priPos low fits in
/-- Where `interactive_pri * threshold * threshold` fits in 64 bits, so do ten thresholds. -/
theorem threshold_ten_lt : 10 * tun.adjustThreshold.toNat < 2 ^ 64 :=
  calc 10 * tun.adjustThreshold.toNat
      ≤ tun.adjustThreshold.toNat * tun.adjustThreshold.toNat := Nat.mul_le_mul_right _ low
    _ ≤ tun.interactivePri.toNat * tun.adjustThreshold.toNat * tun.adjustThreshold.toNat := by
        rw [Nat.mul_assoc]
        exact Nat.le_mul_of_pos_left _ priPos
    _ < 2 ^ 64 := fits

/-- The ratio the window is scaled by. -/
theorem toNat_adjustRatio : adjustRatio.toNat = 10 := rfl

include priPos low fits in
/-- Adding the threshold to usage and blocked time of at most a threshold each
does not wrap, and fills the window. -/
theorem threshold_fills_window (used : g.cpuUsed.toNat ≤ tun.adjustThreshold.toNat)
    (blocked : g.cpuBlocked.toNat ≤ tun.adjustThreshold.toNat) :
    (g.cpuUsed + tun.adjustThreshold).toNat = g.cpuUsed.toNat + tun.adjustThreshold.toNat ∧
      tun.adjustThreshold ≤ g.cpuUsed + tun.adjustThreshold + g.cpuBlocked := by
  have ten := threshold_ten_lt priPos low fits
  have usedSum : (g.cpuUsed + tun.adjustThreshold).toNat = g.cpuUsed.toNat + tun.adjustThreshold.toNat :=
    UInt64.toNat_add_of_lt (by omega)
  refine ⟨usedSum, ?_⟩
  rw [UInt64.le_iff_toNat_le, UInt64.toNat_add_of_lt (by rw [usedSum]; omega), usedSum]
  omega

include small priPos low fits in
/-- One round from a state whose blocked time is at least 10: both values are
divided by 10 after the usage is added, and nothing divides by zero. -/
theorem spinning_round (timeshare : g.bucket ≠ .fixpri) (invalid : g.pendingData.timestamp = pendingInvalid)
    (inRange : ScoreInRange tun g) (used : g.cpuUsed.toNat ≤ tun.adjustThreshold.toNat)
    (blocked : g.cpuBlocked.toNat ≤ tun.adjustThreshold.toNat) (tenBlocked : 10 ≤ g.cpuBlocked.toNat) :
    ∃ g', run tun g (spinning tun.adjustThreshold bucketLoad timestamp 1) = some g' ∧ g'.bucket = g.bucket ∧
      g'.pendingData = g.pendingData ∧ g'.cpuUsed.toNat = (g.cpuUsed.toNat + tun.adjustThreshold.toNat) / 10 ∧
      g'.cpuBlocked.toNat = g.cpuBlocked.toNat / 10 := by
  obtain ⟨usedSum, full⟩ := threshold_fills_window priPos low fits used blocked
  -- the scaled values, and the product of the pending adjustment, which does not wrap
  have scaledUsed : ((g.cpuUsed + tun.adjustThreshold) / adjustRatio).toNat ≤ tun.adjustThreshold.toNat := by
    rw [UInt64.toNat_div, usedSum, toNat_adjustRatio]
    omega
  have scaledBlocked : (g.cpuBlocked / adjustRatio).toNat = g.cpuBlocked.toNat / 10 := UInt64.toNat_div _ _
  have product : tun.interactivePri.toNat * (g.cpuBlocked / adjustRatio).toNat *
      ((g.cpuUsed + tun.adjustThreshold) / adjustRatio).toNat < 2 ^ 64 :=
    Nat.lt_of_le_of_lt (Nat.mul_le_mul (Nat.mul_le_mul_left _ (by omega)) scaledUsed) fits
  have adjusting : cpuAdjust tun { g with cpuUsed := g.cpuUsed + tun.adjustThreshold } 0 =
      some { g with cpuUsed := (g.cpuUsed + tun.adjustThreshold) / adjustRatio, cpuBlocked := g.cpuBlocked / adjustRatio } := by
    rw [cpuAdjust_of_full (g := { g with cpuUsed := g.cpuUsed + tun.adjustThreshold }) 0 full,
      cpuPendingAdjust_no_pending priPos (by omega) product]
    rfl
  have timeshare' : ({ g with cpuUsed := g.cpuUsed + tun.adjustThreshold } : BucketGroup).bucket ≠ .fixpri := timeshare
  obtain ⟨g', s, computed, frame⟩ := interactivityScoreCalculate_of_cpuAdjust small timeshare'
    (pendingAgeout_of_invalid bucketLoad timestamp invalid) adjusting inRange
  refine ⟨g', ?_, by rw [frame], by rw [frame], ?_, by rw [frame]; exact scaledBlocked⟩
  · simp [spinning, run, step, cpuUsageUpdate_threshold timeshare, computed]
  · rw [frame]
    exact (UInt64.toNat_div _ _).trans (by rw [usedSum, toNat_adjustRatio])

include small priPos low fits in
/-- While the blocked time has stayed at least 10, every round is defined and
divides the blocked time by 10. -/
theorem spinning_run {bucket : Bucket} (timeshare : bucket ≠ .fixpri) (rounds : Nat)
    (tens : ∀ j < rounds, 10 ≤ tun.adjustThreshold.toNat / 10 ^ j) :
    ∃ g, run tun (bucketGroupInit tun bucket) (spinning tun.adjustThreshold bucketLoad timestamp rounds) = some g ∧
      g.bucket = bucket ∧ g.pendingData.timestamp = pendingInvalid ∧ ScoreInRange tun g ∧
      g.cpuUsed.toNat ≤ tun.adjustThreshold.toNat ∧ g.cpuBlocked.toNat = tun.adjustThreshold.toNat / 10 ^ rounds := by
  induction rounds with
  | zero => exact ⟨_, rfl, rfl, rfl, bucketGroupInit_scoreInRange bucket, by simp [bucketGroupInit], by simp [bucketGroupInit]⟩
  | succ rounds ih =>
    obtain ⟨g, ran, sameBucket, invalid, inRange, used, blocked⟩ := ih fun j below => tens j (by omega)
    have tenBlocked : 10 ≤ g.cpuBlocked.toNat := blocked ▸ tens rounds (Nat.lt_succ_self _)
    obtain ⟨g', ran', bucket', pending', used', blocked'⟩ := spinning_round bucketLoad timestamp small priPos low fits
      (sameBucket ▸ timeshare) invalid inRange used (by rw [blocked]; exact Nat.div_le_self _ _) tenBlocked
    refine ⟨g', by rw [spinning_succ, run_append, ran, Option.bind_some, ran'], by rw [bucket', sameBucket],
      by rw [pending', invalid], run_scoreInRange small _ inRange ran', by omega, ?_⟩
    rw [blocked', blocked, Nat.div_div_eq_div_mul, Nat.pow_succ]

include small priPos low fits in
/-- The group reaches a blocked time below 10 after the round at which the
threshold's decimal digits run out. -/
theorem spinning_exhausts_blocked {bucket : Bucket} (timeshare : bucket ≠ .fixpri) :
    ∃ rounds g, run tun (bucketGroupInit tun bucket) (spinning tun.adjustThreshold bucketLoad timestamp rounds) = some g ∧
      g.bucket = bucket ∧ g.pendingData.timestamp = pendingInvalid ∧
      g.cpuUsed.toNat ≤ tun.adjustThreshold.toNat ∧ g.cpuBlocked.toNat < 10 := by
  have ends : ∃ rounds, tun.adjustThreshold.toNat / 10 ^ rounds < 10 :=
    ⟨tun.adjustThreshold.toNat, by
      rw [Nat.div_eq_of_lt (Nat.lt_pow_self (by omega))]
      omega⟩
  obtain ⟨g, ran, sameBucket, invalid, -, used, blocked⟩ := spinning_run bucketLoad timestamp
    small priPos low fits timeshare (Nat.find ends) fun j below => Nat.le_of_not_lt (Nat.find_min ends below)
  exact ⟨Nat.find ends, g, ran, sameBucket, invalid, used, blocked ▸ Nat.find_spec ends⟩

include priPos low fits in
/-- At such a state, the next round's adjustment scales the blocked time to 0
and the CPU usage to a positive value, with no pending interval: its pending
adjustment divides by zero. -/
theorem cpuAdjust_exhausted (timeshare : g.bucket ≠ .fixpri) (used : g.cpuUsed.toNat ≤ tun.adjustThreshold.toNat)
    (blocked : g.cpuBlocked.toNat < 10) :
    tun.adjustThreshold ≤ (cpuUsageUpdate tun g tun.adjustThreshold).cpuUsed + g.cpuBlocked ∧
      g.cpuBlocked / adjustRatio = 0 ∧ 0 < ((cpuUsageUpdate tun g tun.adjustThreshold).cpuUsed / adjustRatio).toNat ∧
      cpuAdjust tun (cpuUsageUpdate tun g tun.adjustThreshold) 0 = none := by
  obtain ⟨usedSum, full⟩ := threshold_fills_window priPos low fits used (by omega)
  have noBlocked : g.cpuBlocked / adjustRatio = 0 :=
    UInt64.toNat_inj.mp (by rw [UInt64.toNat_div, toNat_adjustRatio]; simp only [UInt64.toNat_zero]; omega)
  have scaledUsed : 0 < ((g.cpuUsed + tun.adjustThreshold) / adjustRatio).toNat := by
    rw [UInt64.toNat_div, usedSum, toNat_adjustRatio]
    omega
  rw [cpuUsageUpdate_threshold timeshare]
  refine ⟨full, noBlocked, scaledUsed, ?_⟩
  rw [cpuAdjust_of_full (g := { g with cpuUsed := g.cpuUsed + tun.adjustThreshold }) 0 full]
  simp only [noBlocked, cpuPendingAdjust_no_blocked scaledUsed, Option.map_none]

/-- A timeshare group that never blocks, under the default `interactive_pri`
and a threshold of at least 10 and below `2 ^ 30` ticks, reaches a state from
which its next round fills the window, scales `cpu_blocked` to 0 and `cpu_used`
to a positive value, and then divides by zero in
`sched_clutch_bucket_group_cpu_pending_adjust` with no pending interval. -/
theorem spinning_group_divides_by_zero (default : tun.interactivePri = interactivePriDefault)
    (low : 10 ≤ tun.adjustThreshold.toNat) (high : tun.adjustThreshold.toNat < 2 ^ 30)
    {bucket : Bucket} (timeshare : bucket ≠ .fixpri) (bucketLoad : Int32) (timestamp : UInt64) :
    ∃ rounds g, run tun (bucketGroupInit tun bucket) (spinning tun.adjustThreshold bucketLoad timestamp rounds) = some g ∧
      tun.adjustThreshold ≤ (cpuUsageUpdate tun g tun.adjustThreshold).cpuUsed + g.cpuBlocked ∧
      g.cpuBlocked / adjustRatio = 0 ∧ 0 < ((cpuUsageUpdate tun g tun.adjustThreshold).cpuUsed / adjustRatio).toNat ∧
      run tun g (spinning tun.adjustThreshold bucketLoad timestamp 1) = none := by
  have pri : tun.interactivePri.toNat = 8 := by rw [default]; rfl
  have fits : tun.interactivePri.toNat * tun.adjustThreshold.toNat * tun.adjustThreshold.toNat < 2 ^ 64 :=
    calc tun.interactivePri.toNat * tun.adjustThreshold.toNat * tun.adjustThreshold.toNat
        ≤ 8 * 2 ^ 30 * 2 ^ 30 := by
          rw [pri]
          exact Nat.mul_le_mul (Nat.mul_le_mul_left _ high.le) high.le
      _ < 2 ^ 64 := by norm_num
  have priPos : 0 < tun.interactivePri.toNat := by omega
  obtain ⟨rounds, g, ran, sameBucket, invalid, used, blocked⟩ :=
    spinning_exhausts_blocked bucketLoad timestamp (by omega) priPos low fits timeshare
  obtain ⟨full, noBlocked, someUsed, undefined⟩ :=
    cpuAdjust_exhausted priPos low fits (sameBucket ▸ timeshare) used blocked
  refine ⟨rounds, g, ran, full, noBlocked, someUsed, ?_⟩
  have aging : pendingAgeout tun bucketLoad (cpuUsageUpdate tun g tun.adjustThreshold) timestamp =
      some (cpuUsageUpdate tun g tun.adjustThreshold, 0) :=
    pendingAgeout_of_invalid bucketLoad timestamp (by rw [cpuUsageUpdate_threshold (sameBucket ▸ timeshare)]; exact invalid)
  have timeshare' : (cpuUsageUpdate tun g tun.adjustThreshold).bucket ≠ .fixpri := by
    rw [cpuUsageUpdate_bucket, sameBucket]; exact timeshare
  simp [spinning, run, step, interactivityScoreCalculate_of_cpuAdjust_none timeshare' aging undefined]

/-- The tunables on a 24 MHz timebase, as on arm64: 500 ms is 12000000 ticks
and each microsecond of `sched_clutch_bucket_group_pending_delta_us` is 24. -/
def tunables24MHz : Tunables where
  interactivePri := interactivePriDefault
  adjustThreshold := 12000000
  pendingDelta
    | .fixpri => ~~~0
    | .shareFg => 240000
    | .shareIn => 900000
    | .shareDf => 1800000
    | .shareUt => 3600000
    | .shareBg => 6000000

theorem spinning_group_divides_by_zero_24MHz :
    ∃ rounds g, run tunables24MHz (bucketGroupInit tunables24MHz .shareDf)
        (spinning tunables24MHz.adjustThreshold 1 1 rounds) = some g ∧
      run tunables24MHz g (spinning tunables24MHz.adjustThreshold 1 1 1) = none := by
  obtain ⟨rounds, g, ran, -, -, -, undefined⟩ :=
    @spinning_group_divides_by_zero tunables24MHz rfl (by decide) (by decide) .shareDf (by decide) 1 1
  exact ⟨rounds, g, ran, undefined⟩

end Spinning

section Ageout

variable {g : BucketGroup} {bucketLoad : Int32} {timestamp : UInt64}

/-- The ageout of a group pending since `p < timestamp`, with a positive load
and an `interactivity_delta` that does not wrap: the count of whole intervals
modulo 256, and the pending timestamp moved on by exactly that many intervals,
never past `timestamp`. -/
theorem pending_ageout_counts_mod_256 (valid : g.pendingData.timestamp ≠ pendingInvalid) (later : g.pendingData.timestamp < timestamp)
    (loaded : 0 < bucketLoad) (deltaPos : 0 < (tun.pendingDelta g.bucket).toNat)
    (deltaFits : (tun.pendingDelta g.bucket).toNat * bucketLoad.toNatClampNeg < 2 ^ 64) :
    ∃ shift : UInt8, pendingAgeout tun bucketLoad g timestamp =
        some ({ g with pendingData.timestamp :=
          g.pendingData.timestamp + shift.toUInt64 * (tun.pendingDelta g.bucket * bucketLoad.toInt64.toUInt64) }, shift) ∧
      shift.toNat = (timestamp.toNat - g.pendingData.timestamp.toNat) /
        ((tun.pendingDelta g.bucket).toNat * bucketLoad.toNatClampNeg) % 256 ∧
      (g.pendingData.timestamp + shift.toUInt64 * (tun.pendingDelta g.bucket * bucketLoad.toInt64.toUInt64)).toNat =
        g.pendingData.timestamp.toNat + shift.toNat * ((tun.pendingDelta g.bucket).toNat * bucketLoad.toNatClampNeg) ∧
      g.pendingData.timestamp.toNat + shift.toNat * ((tun.pendingDelta g.bucket).toNat * bucketLoad.toNatClampNeg) ≤
        timestamp.toNat := by
  have loadCast := Int32.toNat_toUInt64_of_nonneg (Int32.le_of_lt loaded)
  have loadPos := Int32.toNatClampNeg_pos loaded
  have interval : (tun.pendingDelta g.bucket * bucketLoad.toInt64.toUInt64).toNat =
      (tun.pendingDelta g.bucket).toNat * bucketLoad.toNatClampNeg := by
    rw [UInt64.toNat_mul_of_lt (by rw [loadCast]; exact deltaFits), loadCast]
  have intervalPos := Nat.mul_pos deltaPos loadPos
  have elapsed : (timestamp - g.pendingData.timestamp).toNat = timestamp.toNat - g.pendingData.timestamp.toNat :=
    UInt64.toNat_sub_of_le _ _ (UInt64.le_of_lt later)
  have before := UInt64.lt_iff_toNat_lt.mp later
  have bounded := timestamp.toNat_lt
  unfold pendingAgeout
  dsimp only
  rw [if_neg fun stale => by
    rcases stale with early | invalid | unloaded
    · exact absurd (UInt64.le_iff_toNat_le.mp early) (by omega)
    · exact valid invalid
    · rw [unloaded] at loaded
      exact absurd loaded (by decide)]
  split
  · -- less than one interval: no shift, and nothing moves
    rename_i short
    have fewer := UInt64.lt_iff_toNat_lt.mp short
    rw [elapsed, interval] at fewer
    refine ⟨0, ?_, by simp [Nat.div_eq_of_lt fewer], by simp, by simp; omega⟩
    simp only [show (0 : UInt8).toUInt64 = 0 from rfl, UInt64.zero_mul, UInt64.add_zero]
  · rw [udiv_of_pos (by rw [interval]; exact intervalPos), Option.map_some]
    -- the shift is the `uint8_t` truncation of the quotient, so at most the quotient
    have shift : ((timestamp - g.pendingData.timestamp) / (tun.pendingDelta g.bucket * bucketLoad.toInt64.toUInt64)).toUInt8.toNat =
        (timestamp.toNat - g.pendingData.timestamp.toNat) / ((tun.pendingDelta g.bucket).toNat * bucketLoad.toNatClampNeg) % 256 := by
      rw [UInt64.toNat_toUInt8, UInt64.toNat_div, elapsed, interval]
    have advance : ((timestamp - g.pendingData.timestamp) / (tun.pendingDelta g.bucket * bucketLoad.toInt64.toUInt64)).toUInt8.toNat *
        ((tun.pendingDelta g.bucket).toNat * bucketLoad.toNatClampNeg) ≤ timestamp.toNat - g.pendingData.timestamp.toNat := by
      rw [shift]
      exact Nat.le_trans (Nat.mul_le_mul_right _ (Nat.mod_le _ _)) (Nat.div_mul_le_self _ _)
    refine ⟨_, rfl, shift, ?_, by omega⟩
    have product : (((timestamp - g.pendingData.timestamp) / (tun.pendingDelta g.bucket * bucketLoad.toInt64.toUInt64)).toUInt8.toUInt64 *
        (tun.pendingDelta g.bucket * bucketLoad.toInt64.toUInt64)).toNat =
        ((timestamp - g.pendingData.timestamp) / (tun.pendingDelta g.bucket * bucketLoad.toInt64.toUInt64)).toUInt8.toNat *
          ((tun.pendingDelta g.bucket).toNat * bucketLoad.toNatClampNeg) := by
      rw [UInt64.toNat_mul_of_lt (by rw [UInt8.toNat_toUInt64, interval]; omega), UInt8.toNat_toUInt64, interval]
    rw [UInt64.toNat_add_of_lt (by rw [product]; omega), product]

/-- A foreground group pending since 0 on a 24 MHz timebase under load 1, so
with intervals of 240000 ticks: after 255 intervals the ageout returns 255,
after 256 it returns 0 and leaves the pending timestamp where it was. -/
theorem pendingAgeout_wraps_at_256 :
    (pendingAgeout tunables24MHz 1 (thrCountInc (bucketGroupInit tunables24MHz .shareFg) 0) (255 * 240000)).map
        Prod.snd = some 255 ∧
      pendingAgeout tunables24MHz 1 (thrCountInc (bucketGroupInit tunables24MHz .shareFg) 0) (256 * 240000) =
        some (thrCountInc (bucketGroupInit tunables24MHz .shareFg) 0, 0) := by
  decide

end Ageout

section Priority

theorem toNat_foldr_max_le {keys : List UInt8} {bound : Nat} (all : ∀ k ∈ keys, k.toNat ≤ bound) :
    (keys.foldr max 0).toNat ≤ bound := by
  induction keys with
  | nil => simp
  | cons k keys ih =>
    rw [List.foldr_cons, UInt8.toNat_max]
    exact max_le (all k List.mem_cons_self) (ih fun j member => all j (List.mem_cons_of_mem k member))

/-- A clutch bucket whose threads are at most `MAXPRI_PROMOTE` has a base
priority of at most `MAXPRI_PROMOTE + 4`. -/
theorem bucketBasePri_le (clutchBucket : ClutchBucket) (tgPri : TgPriority)
    (threads : ∀ thread ∈ clutchBucket.clutchpriPrioq, thread.basePri ≤ maxpriPromote ∧ thread.schedPri ≤ maxpriPromote) :
    (bucketBasePri clutchBucket tgPri).toNat ≤ maxpriPromote.toNat + 4 := by
  have keys : ∀ k ∈ clutchBucket.clutchpriPrioq.map clutchpriKey, k.toNat ≤ maxpriPromote.toNat := by
    intro k member
    obtain ⟨thread, held, rfl⟩ := List.mem_map.mp member
    obtain ⟨base, sched⟩ := threads thread held
    unfold clutchpriKey
    split
    · exact UInt8.le_iff_toNat_le.mp sched
    · exact UInt8.le_iff_toNat_le.mp base
  have maxPri := toNat_foldr_max_le keys
  have boost : (priBoost tgPri).toNat ≤ 4 := by cases tgPri <;> decide
  have promote : maxpriPromote.toNat = 95 := rfl
  unfold bucketBasePri
  rw [UInt8.toNat_add]
  omega

/-- Every priority `sched_clutch_bucket_pri_calculate` returns for such a
bucket, whose group's stored score is in range, is at most its base priority
bound plus `2 * interactive_pri`. -/
theorem bucketPriCalculate_le (small : tun.interactivePri.toNat ≤ 127) {clutchBucket clutchBucket' : ClutchBucket}
    {tgPri : TgPriority} {bucketLoad : Int32} {timestamp : UInt64} {pri : UInt8}
    (inRange : ScoreInRange tun clutchBucket.group)
    (threads : ∀ thread ∈ clutchBucket.clutchpriPrioq, thread.basePri ≤ maxpriPromote ∧ thread.schedPri ≤ maxpriPromote)
    (computed : bucketPriCalculate tun bucketLoad clutchBucket tgPri timestamp = some (clutchBucket', pri)) :
    pri.toNat ≤ maxpriPromote.toNat + 4 + 2 * tun.interactivePri.toNat := by
  unfold bucketPriCalculate at computed
  split at computed
  · cases computed
    exact Nat.zero_le _
  · obtain ⟨⟨group, score⟩, scored, same⟩ := Option.map_eq_some_iff.mp computed
    obtain ⟨-, rfl⟩ := Prod.mk.inj same
    have base := bucketBasePri_le clutchBucket tgPri threads
    have bounded := (interactivityScoreCalculate_le small inRange scored).2
    rw [UInt8.toNat_add]
    omega

/-- Under the default `interactive_pri`, on every group reachable from
`sched_clutch_bucket_group_init`: `sched_clutch_interactivity_from_cpu_data`
divides by no zero and scores within `[0, 16]` for every `cpu_used` and
`cpu_blocked`; and for a clutch bucket of that group whose threads are at most
`MAXPRI_PROMOTE`, under any thread-group priority, the base priority plus
every score the calculation returns, and every priority
`sched_clutch_bucket_pri_calculate` returns, is at most
`MAXPRI_PROMOTE + 4 + 16`, below `NRQS_MAX`. -/
theorem bucket_pri_below_nrqs_max (default : tun.interactivePri = interactivePriDefault) {bucket : Bucket}
    {events : List Event} {g : BucketGroup} (reach : run tun (bucketGroupInit tun bucket) events = some g) :
    (∀ cpuUsed cpuBlocked : UInt64, ∃ score,
        interactivityFromCpuData tun { g with cpuUsed := cpuUsed, cpuBlocked := cpuBlocked } = some score ∧
          score.toNat ≤ 2 * interactivePriDefault.toNat) ∧
      ∀ (clutchBucket : ClutchBucket) (tgPri : TgPriority) (bucketLoad : Int32) (timestamp : UInt64),
        clutchBucket.group = g →
        (∀ thread ∈ clutchBucket.clutchpriPrioq, thread.basePri ≤ maxpriPromote ∧ thread.schedPri ≤ maxpriPromote) →
        (∀ group score, interactivityScoreCalculate tun bucketLoad g timestamp = some (group, score) →
          (bucketBasePri clutchBucket tgPri).toNat + score.toNat ≤ maxpriPromote.toNat + 4 + 2 * interactivePriDefault.toNat) ∧
        ∀ clutchBucket' pri, bucketPriCalculate tun bucketLoad clutchBucket tgPri timestamp = some (clutchBucket', pri) →
          pri.toNat ≤ maxpriPromote.toNat + 4 + 2 * interactivePriDefault.toNat ∧ pri.toNat < nrqsMax := by
  have small : tun.interactivePri.toNat ≤ 127 := by rw [default]; decide
  have inRange := run_scoreInRange small events (bucketGroupInit_scoreInRange bucket) reach
  have bound : maxpriPromote.toNat + 4 + 2 * interactivePriDefault.toNat < nrqsMax := by decide
  rw [← default] at bound ⊢
  refine ⟨fun cpuUsed cpuBlocked => interactivityFromCpuData_le small _ inRange, ?_⟩
  intro clutchBucket tgPri bucketLoad timestamp grouped threads
  subst grouped
  refine ⟨fun group score computed => ?_, fun clutchBucket' pri computed => ?_⟩
  · have base := bucketBasePri_le clutchBucket tgPri threads
    have scored := (interactivityScoreCalculate_le small inRange computed).2
    omega
  · have calculated := bucketPriCalculate_le small inRange threads computed
    exact ⟨calculated, by omega⟩

/-- A default-bucket group on a 24 MHz timebase: a thread made runnable, run
and blocked, CPU usage charged twice, a second thread, and two score
calculations, the second under load 2. -/
theorem bucket_pri_below_nrqs_max_accounted :
    let g : BucketGroup := ⟨.shareDf, 109110, 120000, ⟨8, 30000000⟩, ⟨0, 500000⟩, ⟨2, 28800000⟩⟩
    (∀ cpuUsed cpuBlocked : UInt64, ∃ score,
        interactivityFromCpuData tunables24MHz { g with cpuUsed := cpuUsed, cpuBlocked := cpuBlocked } = some score ∧
          score.toNat ≤ 2 * interactivePriDefault.toNat) ∧
      ∀ (clutchBucket : ClutchBucket) (tgPri : TgPriority) (bucketLoad : Int32) (timestamp : UInt64),
        clutchBucket.group = g →
        (∀ thread ∈ clutchBucket.clutchpriPrioq, thread.basePri ≤ maxpriPromote ∧ thread.schedPri ≤ maxpriPromote) →
        (∀ group score, interactivityScoreCalculate tunables24MHz bucketLoad g timestamp = some (group, score) →
          (bucketBasePri clutchBucket tgPri).toNat + score.toNat ≤ maxpriPromote.toNat + 4 + 2 * interactivePriDefault.toNat) ∧
        ∀ clutchBucket' pri, bucketPriCalculate tunables24MHz bucketLoad clutchBucket tgPri timestamp = some (clutchBucket', pri) →
          pri.toNat ≤ maxpriPromote.toNat + 4 + 2 * interactivePriDefault.toNat ∧ pri.toNat < nrqsMax := by
  intro g
  exact @bucket_pri_below_nrqs_max tunables24MHz rfl .shareDf
    [.thrCountInc 0, .runCountInc 10, .cpuUsageUpdate 240000, .runCountDec 500000, .interactivityScoreCalculate 1 600000,
      .thrCountInc 700000, .cpuUsageUpdate 12000000, .interactivityScoreCalculate 2 30000000] g rfl

/-- A spinning group on a 24 MHz timebase reaches a state where
`sched_clutch_bucket_pri_calculate` of a non-empty clutch bucket of it has no
defined result: its score calculation divides by zero. -/
theorem bucketPriCalculate_undefined :
    ∃ events g, run tunables24MHz (bucketGroupInit tunables24MHz .shareDf) events = some g ∧
      bucketPriCalculate tunables24MHz 1 ⟨1, [], g⟩ .low 1 = none := by
  obtain ⟨rounds, g, ran, sameBucket, invalid, used, blocked⟩ :=
    @spinning_exhausts_blocked tunables24MHz 1 1 (by decide) (by decide) (by decide) (by decide) .shareDf (by decide)
  have timeshare : g.bucket ≠ .fixpri := by rw [sameBucket]; decide
  obtain ⟨-, -, -, undefined⟩ := cpuAdjust_exhausted (by decide) (by decide) (by decide) timeshare used blocked
  have aging : pendingAgeout tunables24MHz 1 (cpuUsageUpdate tunables24MHz g tunables24MHz.adjustThreshold) 1 =
      some (cpuUsageUpdate tunables24MHz g 12000000, 0) :=
    pendingAgeout_of_invalid 1 1 (by rw [cpuUsageUpdate_threshold timeshare]; exact invalid)
  refine ⟨spinning tunables24MHz.adjustThreshold 1 1 rounds ++ [.cpuUsageUpdate tunables24MHz.adjustThreshold],
    cpuUsageUpdate tunables24MHz g tunables24MHz.adjustThreshold,
    by rw [run_append, ran]; rfl, ?_⟩
  unfold bucketPriCalculate
  rw [if_neg (show ¬(1 : UInt16) = 0 by decide), interactivityScoreCalculate_of_cpuAdjust_none (by rw [cpuUsageUpdate_bucket]; exact timeshare)
    aging undefined]
  rfl

end Priority

end Xnu.Clutch
