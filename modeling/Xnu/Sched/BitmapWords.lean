import Xnu.Kern.BitsCorrect
import Xnu.Sched.ClutchThread

namespace Xnu

/-! The scheduler models read a bitmap as the map from a position to its bit
and scan it below `nbits` only. On the words of a `bitmap_t` whose bits from
`nbits` on are clear, as the run queue and root bucket bitmaps keep them, their
scans are the scans of `osfmk/kern/bits.h` in `Xnu.Kern.Bits`, read as
integers. -/

section Scans

theorem Sched.bitmapFirst_eq_posOrNeg (map : Nat → Bool) (n : Nat) :
    Sched.bitmapFirst map n = Bits.posOrNeg (greatestBelow map n) := by
  induction n with
  | zero => rfl
  | succ n ih =>
    by_cases top : map n
    · simp [Sched.bitmapFirst, greatestBelow, top, Bits.posOrNeg]
    · simp [Sched.bitmapFirst, greatestBelow, top, ih]

theorem Clutch.bitmapLsbFirst_eq_posOrNeg (map : Nat → Bool) (nbits : Nat) :
    Clutch.bitmapLsbFirst map nbits = Bits.posOrNeg (leastFrom map 0 nbits) := by
  unfold Clutch.bitmapLsbFirst
  split <;> rename_i found <;> simp [found, Bits.posOrNeg]

theorem Clutch.bitmapLsbNext_eq_posOrNeg (map : Nat → Bool) (nbits prev : Nat) :
    Clutch.bitmapLsbNext map nbits prev = Bits.posOrNeg (leastFrom map (prev + 1) (nbits - (prev + 1))) := by
  unfold Clutch.bitmapLsbNext
  split <;> rename_i found <;> simp [found, Bits.posOrNeg]

end Scans

section Words

variable {words : List UInt64} {nbits : UInt32} (pos : 0 < nbits.toNat) (fits : nbits.toNat ≤ 2 ^ 31)
  (clear : ∀ q, nbits.toNat ≤ q → Bits.bitAt words q = false)
include pos fits clear

/-- `bitmap_first(map, nbits)` of the run queue is the scan of `osfmk/kern/bits.h`. -/
theorem Sched.bitmapFirst_bitAt : Sched.bitmapFirst (Bits.bitAt words) nbits.toNat = (Bits.bitmapFirst words nbits).toInt := by
  rw [Sched.bitmapFirst_eq_posOrNeg, Bits.bitmapFirst_eq clear pos, Bits.toInt_code]
  intro n found
  have below := (greatestBelow_eq_some.mp found).1
  omega

/-- `bitmap_lsb_first(map, nbits)` of the clutch root is the scan of `osfmk/kern/bits.h`. -/
theorem Clutch.bitmapLsbFirst_bitAt :
    Clutch.bitmapLsbFirst (Bits.bitAt words) nbits.toNat = (Bits.bitmapLsbFirst words nbits).toInt := by
  rw [Clutch.bitmapLsbFirst_eq_posOrNeg, Bits.bitmapLsbFirst_eq clear pos, Bits.toInt_code]
  intro n found
  have below := (leastFrom_eq_some.mp found).2.1
  omega

/-- `bitmap_lsb_next(map, nbits, prev)` of the clutch root is the scan of
`osfmk/kern/bits.h`, for `prev` below `nbits`. -/
theorem Clutch.bitmapLsbNext_bitAt {prev : UInt32} (inside : prev.toNat < nbits.toNat) :
    Clutch.bitmapLsbNext (Bits.bitAt words) nbits.toNat prev.toNat = (Bits.bitmapLsbNext words nbits prev).toInt := by
  rw [Clutch.bitmapLsbNext_eq_posOrNeg, Bits.bitmapLsbNext_eq clear inside, Bits.toInt_code]
  intro n found
  have below := (leastFrom_eq_some.mp found).2.1
  omega

end Words

end Xnu
