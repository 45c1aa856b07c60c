import Mathlib

/-! C's conversions between the signed and unsigned 64-bit types, as `Int`
and `Nat` values: a signed value read as unsigned is its residue modulo
`2 ^ 64`, and an unsigned value below `2 ^ 63` read as signed keeps its
value. -/

/-- `(uint64_t)x` of an `int64_t`: the residue of `x` modulo `2 ^ 64`. -/
theorem Int64.toNat_toUInt64_eq_emod (x : Int64) : (x.toUInt64.toNat : Int) = x.toInt % 2 ^ 64 := by
  rw [← Int64.toNat_toBitVec, Int64.toInt, BitVec.toInt_eq_toNat_cond]
  have lt := x.toBitVec.isLt
  split <;> omega

/-- `(int64_t)x` of a `uint64_t` below `2 ^ 63` keeps its value. -/
theorem UInt64.toInt_toInt64_of_lt {x : UInt64} (small : x.toNat < 2 ^ 63) : x.toInt64.toInt = x.toNat := by
  rw [Int64.toInt, UInt64.toBitVec_toInt64, BitVec.toInt_eq_toNat_cond, UInt64.toNat_toBitVec, if_pos (by omega)]

/-- `(uint64_t)x` of a non-negative `int` keeps its value. -/
theorem Int32.toNat_toUInt64_of_nonneg {x : Int32} (nonneg : 0 ≤ x) : x.toInt64.toUInt64.toNat = x.toNatClampNeg := by
  have residue := Int64.toNat_toUInt64_eq_emod x.toInt64
  rw [Int32.toInt_toInt64] at residue
  have below := x.toInt_lt
  have above := Int32.le_iff_toInt_le.mp nonneg
  simp only [Int32.toInt_zero] at above
  rw [Int32.toNatClampNeg]
  omega

/-- A positive `int` clamped to a natural number stays positive. -/
theorem Int32.toNatClampNeg_pos {x : Int32} (pos : 0 < x) : 0 < x.toNatClampNeg := by
  have above := Int32.lt_iff_toInt_lt.mp pos
  simp only [Int32.toInt_zero] at above
  rw [Int32.toNatClampNeg]
  omega

/-- A `uint64_t` sum that does not wrap. -/
theorem UInt64.toNat_add_of_lt {a b : UInt64} (fits : a.toNat + b.toNat < 2 ^ 64) : (a + b).toNat = a.toNat + b.toNat := by
  rw [UInt64.toNat_add, Nat.mod_eq_of_lt fits]

/-- A `uint64_t` product that does not wrap. -/
theorem UInt64.toNat_mul_of_lt {a b : UInt64} (fits : a.toNat * b.toNat < 2 ^ 64) : (a * b).toNat = a.toNat * b.toNat := by
  rw [UInt64.toNat_mul, Nat.mod_eq_of_lt fits]

namespace Xnu

/-- C's unsigned division `a / b`: undefined, `none`, when `b` is zero. -/
def udiv (a b : UInt64) : Option UInt64 := if b = 0 then none else some (a / b)

@[simp] theorem udiv_eq_none {a b : UInt64} : udiv a b = none ↔ b = 0 := by
  unfold udiv
  split <;> simp_all

theorem udiv_of_ne_zero {a b : UInt64} (nonzero : b ≠ 0) : udiv a b = some (a / b) := if_neg nonzero

theorem udiv_of_pos {a b : UInt64} (pos : 0 < b.toNat) : udiv a b = some (a / b) :=
  udiv_of_ne_zero fun zero => by simp [zero] at pos

end Xnu
