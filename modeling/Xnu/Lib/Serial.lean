import Mathlib

namespace Xnu

/-! Sequence-number arithmetic. A 32-bit sequence number stands for a position
of a stream counted modulo `2^32`; C code compares two of them by the sign of
`(int)(a - b)` and measures overlaps by `(int)(a + n - b)`. Both give the true
distance between the positions as long as it is less than `2^31` either way. -/

theorem UInt32.toInt_toInt32 (u : UInt32) :
    u.toInt32.toInt = if u.toNat < 2 ^ 31 then (u.toNat : Int) else u.toNat - 2 ^ 32 := by
  have := u.toNat_lt
  simp only [UInt32.toInt32, Int32.toInt, BitVec.toInt_eq_toNat_cond]
  show (if 2 * u.toNat < 2 ^ 32 then (u.toNat : Int) else (u.toNat : Int) - 2 ^ 32) = _
  split_ifs <;> omega

/-- `(int)(a + n - b)`, with `a` and `b` measured from any common reference `r`,
is the distance from `b` to `a + n` when that is within the range of `int`. -/
theorem UInt32.toInt_toInt32_add_sub (a n b r : UInt32)
    (lo : -2 ^ 31 ≤ ((a - r).toNat + n.toNat : Int) - (b - r).toNat)
    (hi : ((a - r).toNat + n.toNat : Int) - (b - r).toNat < 2 ^ 31) :
    (a + n - b).toInt32.toInt = ((a - r).toNat + n.toNat : Int) - (b - r).toNat := by
  rw [UInt32.toInt_toInt32]
  simp only [UInt32.toNat_sub, UInt32.toNat_add] at lo hi ⊢
  have := a.toNat_lt
  have := b.toNat_lt
  have := r.toNat_lt
  have := n.toNat_lt
  split_ifs <;> omega

/-- `SEQ_GEQ(a, b)` puts `a` less than `2^31` past `b`. -/
theorem UInt32.toNat_lt_of_toInt32_nonneg {u : UInt32} (nonneg : u.toInt32 ≥ 0) : u.toNat < 2 ^ 31 := by
  have := u.toNat_lt
  rw [ge_iff_le, Int32.le_iff_toInt_le, UInt32.toInt_toInt32] at nonneg
  simp only [Int32.toInt_zero] at nonneg
  split_ifs at nonneg <;> omega

theorem Int32.toInt_eq_cond (i : Int32) :
    i.toInt = if i.toUInt32.toNat < 2 ^ 31 then (i.toUInt32.toNat : Int) else i.toUInt32.toNat - 2 ^ 32 := by
  have := i.toUInt32.toNat_lt
  simp only [Int32.toInt, BitVec.toInt_eq_toNat_cond]
  show (if 2 * i.toUInt32.toNat < 2 ^ 32 then (i.toUInt32.toNat : Int) else (i.toUInt32.toNat : Int) - 2 ^ 32) = _
  split_ifs <;> omega

theorem Int32.toNat_toUInt32_of_nonneg (i : Int32) (nonneg : 0 ≤ i.toInt) :
    i.toUInt32.toNat = i.toInt.toNat := by
  have := i.toUInt32.toNat_lt
  rw [Int32.toInt_eq_cond] at nonneg ⊢
  split_ifs at nonneg ⊢ <;> omega

theorem Int32.toInt_sub_of_range (a b : Int32) (lo : -2 ^ 31 ≤ a.toInt - b.toInt)
    (hi : a.toInt - b.toInt < 2 ^ 31) : (a - b).toInt = a.toInt - b.toInt := by
  rw [Int32.toInt_sub]
  exact Int.bmod_eq_of_le (by omega) (by omega)

end Xnu
