import Mathlib

namespace Xnu

/-! Address arithmetic on 64 bits as C writes it. Rounding up to a power-of-two
boundary, `(x + mask) & ~mask` with `mask = 2^k - 1`, is below the wrap of the
addition the least multiple of `2^k` at or above `x`; a difference that comes
out no larger than what it was taken from did not wrap. -/

/-- The least multiple of `align` at or above `x`. -/
def alignUp (align x : Nat) : Nat := (x + align - 1) / align * align

theorem alignUp_mod {align : Nat} (x : Nat) : alignUp align x % align = 0 := Nat.mul_mod_left _ _

theorem alignUp_le_add (align x : Nat) : alignUp align x ≤ x + align - 1 := Nat.div_mul_le_self _ _

section AlignUp

variable {align : Nat} (pos : 0 < align)
include pos

theorem le_alignUp (x : Nat) : x ≤ alignUp align x := by
  have split := Nat.div_add_mod (x + align - 1) align
  have small := Nat.mod_lt (x + align - 1) pos
  rw [alignUp, Nat.mul_comm]
  omega

/-- Every multiple of `align` at or above `x` is at or above its rounding. -/
theorem alignUp_le {x y : Nat} (le : x ≤ y) (aligned : y % align = 0) : alignUp align x ≤ y := by
  obtain ⟨t, rfl⟩ := Nat.dvd_of_mod_eq_zero aligned
  have belowRound := alignUp_le_add align x
  by_contra above
  -- both are multiples of `align`, so the rounding is a whole `align` above
  have more : t < (x + align - 1) / align := by
    have lt : align * t < align * ((x + align - 1) / align) := by
      rw [Nat.mul_comm align ((x + align - 1) / align)]
      exact Nat.lt_of_not_le above
    exact Nat.lt_of_mul_lt_mul_left lt
  have gap : align * (t + 1) ≤ alignUp align x :=
    calc align * (t + 1) ≤ align * ((x + align - 1) / align) := Nat.mul_le_mul_left align more
      _ = alignUp align x := Nat.mul_comm _ _
  rw [Nat.mul_succ] at gap
  omega

theorem alignUp_mono {x y : Nat} (le : x ≤ y) : alignUp align x ≤ alignUp align y :=
  alignUp_le pos (le.trans (le_alignUp pos y)) (alignUp_mod y)

theorem alignUp_of_mod {x : Nat} (aligned : x % align = 0) : alignUp align x = x :=
  Nat.le_antisymm (alignUp_le pos le_rfl aligned) (le_alignUp pos x)

end AlignUp

section Mask

variable {k : Nat} {mask : UInt64} (isMask : mask.toNat = 2 ^ k - 1)
include isMask

/-- `x & ~mask` clears the low `k` bits. -/
theorem UInt64.toNat_and_not_mask (x : UInt64) : (x &&& ~~~mask).toNat = x.toNat / 2 ^ k * 2 ^ k := by
  rw [← Nat.shiftRight_eq_div_pow, ← Nat.shiftLeft_eq]
  apply Nat.eq_of_testBit_eq
  intro i
  have notMask : (~~~mask).toNat = 2 ^ 64 - (mask.toNat + 1) := by
    rw [UInt64.toNat_not, UInt64.size]
    omega
  rw [UInt64.toNat_and, Nat.testBit_and, notMask, Nat.testBit_two_pow_sub_succ mask.toNat_lt, isMask,
    Nat.testBit_two_pow_sub_one, Nat.testBit_shiftLeft, Nat.testBit_shiftRight]
  by_cases high : k ≤ i
  · rw [Nat.add_sub_cancel' high]
    by_cases inside : i < 64
    · simp [high, inside, Nat.not_lt.mpr high]
    · -- past bit 63 both sides are 0
      have beyond : x.toNat < 2 ^ i :=
        lt_of_lt_of_le x.toNat_lt (Nat.pow_le_pow_right (by norm_num) (Nat.not_lt.mp inside))
      simp [Nat.testBit_eq_false_of_lt beyond, inside]
  · simp [high, Nat.lt_of_not_le high]

/-- `(x + mask) & ~mask` rounds up, as long as the addition does not wrap. -/
theorem UInt64.toNat_alignUp (x : UInt64) (noWrap : x.toNat + mask.toNat < 2 ^ 64) :
    ((x + mask) &&& ~~~mask).toNat = alignUp (2 ^ k) x.toNat := by
  have pos : 0 < 2 ^ k := Nat.two_pow_pos k
  rw [UInt64.toNat_and_not_mask isMask, UInt64.toNat_add, Nat.mod_eq_of_lt noWrap, isMask, alignUp]
  congr 2
  omega

end Mask

/-- An address already on the boundary is left as it is, whatever the mask. -/
theorem UInt64.alignUp_of_and_eq_zero {x mask : UInt64} (aligned : x &&& mask = 0) :
    (x + mask) &&& ~~~mask = x := by
  have noCarry : x + mask = x ||| mask := by
    apply UInt64.toBitVec_inj.mp
    simp only [UInt64.toBitVec_add, UInt64.toBitVec_or]
    exact BitVec.add_eq_or_of_and_eq_zero _ _ (by simpa using congrArg UInt64.toBitVec aligned)
  have disjoint : x.toBitVec &&& mask.toBitVec = 0 := by simpa using congrArg UInt64.toBitVec aligned
  rw [noCarry]
  apply UInt64.toBitVec_inj.mp
  simp only [UInt64.toBitVec_and, UInt64.toBitVec_or, UInt64.toBitVec_not]
  ext i inside
  have bit := congrArg (fun v => v.getLsbD i) disjoint
  simp only [BitVec.getLsbD_and] at bit
  cases hx : x.toBitVec.getLsbD i <;> cases hm : mask.toBitVec.getLsbD i <;> simp_all

/-- `a - b` that is not above `a` did not wrap. -/
theorem UInt64.toNat_sub_add_of_not_lt {a b : UInt64} (noWrap : ¬ a < a - b) :
    (a - b).toNat + b.toNat = a.toNat := by
  rw [UInt64.lt_iff_toNat_lt, UInt64.toNat_sub] at noWrap
  rw [UInt64.toNat_sub]
  have aLt := a.toNat_lt
  have bLt := b.toNat_lt
  omega

end Xnu
