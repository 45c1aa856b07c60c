import Mathlib

namespace Xnu

/-! Bitmaps kept in bytes, eight bits to a byte with the lowest bit first, as
the `setbit`, `clrbit` and `isset` macros keep them. A byte is read through
its bits (`bitOf`), a store of bytes through the bit at each index
(`bitAt`); the byte operations and the masks built with shifts become
Boolean operations on bits. -/

/-- Bit `k` of the byte `b`. -/
def bitOf (b : UInt8) (k : Nat) : Bool := b.toBitVec.getLsbD k

/-- Bit `i` of the bitmap stored in `q`. -/
def bitAt (q : Nat → UInt8) (i : Nat) : Bool := bitOf (q (i / 8)) (i % 8)

@[simp] theorem bitOf_and (a b : UInt8) (k : Nat) : bitOf (a &&& b) k = (bitOf a k && bitOf b k) := by
  simp [bitOf]

@[simp] theorem bitOf_or (a b : UInt8) (k : Nat) : bitOf (a ||| b) k = (bitOf a k || bitOf b k) := by
  simp [bitOf]

theorem bitOf_not (a : UInt8) {k : Nat} (low : k < 8) : bitOf (~~~a) k = !bitOf a k := by
  simp [bitOf, low]

@[simp] theorem bitOf_zero (k : Nat) : bitOf 0 k = false := by
  simp [bitOf]

/-- A value built in `int` and cast to a byte keeps its low eight bits. -/
theorem bitOf_toUInt8 (n : Nat) {k : Nat} (low : k < 8) : bitOf n.toUInt8 k = n.testBit k := by
  simp only [bitOf, Nat.toUInt8, UInt8.toBitVec_ofNat', BitVec.getLsbD_ofNat, low, decide_true, Bool.true_and]

theorem testBit_one_shiftLeft (k j : Nat) : (1 <<< k).testBit j = decide (j = k) := by
  simp [Nat.one_shiftLeft, Nat.testBit_two_pow, eq_comm]

/-- `((1 << (e - s)) - 1) << s` has the bits from `s` up to `e`. -/
theorem testBit_mask (s e j : Nat) : (((1 <<< (e - s)) - 1) <<< s).testBit j = (decide (s ≤ j) && decide (j < e)) := by
  rw [Nat.testBit_shiftLeft, Nat.one_shiftLeft, Nat.testBit_two_pow_sub_one]
  by_cases above : s ≤ j
  · simp only [above, decide_true, Bool.true_and]
    congr 1
    exact propext (by omega)
  · simp [above]

/-- A byte is zero exactly when none of its eight bits is set. -/
theorem UInt8.ne_zero_iff_bitOf (b : UInt8) : b ≠ 0 ↔ ∃ k < 8, bitOf b k = true := by
  constructor
  · intro nonzero
    by_contra none
    apply nonzero
    apply UInt8.toBitVec_inj.mp
    apply BitVec.eq_of_getLsbD_eq
    intro i below
    have clear : bitOf b i ≠ true := fun set => none ⟨i, below, set⟩
    simpa [bitOf] using clear
  · rintro ⟨k, _, set⟩ zero
    rw [zero, bitOf_zero] at set
    contradiction

/-- Bit `k` of `b & (1 << k)` decides whether the `&` is zero. -/
theorem UInt8.and_one_shiftLeft_ne_zero (b : UInt8) {k : Nat} (low : k < 8) :
    b &&& (1 <<< k).toUInt8 ≠ 0 ↔ bitOf b k = true := by
  rw [UInt8.ne_zero_iff_bitOf]
  constructor
  · rintro ⟨j, below, set⟩
    rw [bitOf_and, bitOf_toUInt8 _ below, testBit_one_shiftLeft, Bool.and_eq_true, decide_eq_true_eq] at set
    obtain ⟨set, rfl⟩ := set
    exact set
  · intro set
    refine ⟨k, low, ?_⟩
    rw [bitOf_and, bitOf_toUInt8 _ low, testBit_one_shiftLeft, set]
    simp

/-- A store whose byte `j` is replaced keeps every bit outside that byte. -/
theorem bitAt_update_of_ne (q : Nat → UInt8) {j i : Nat} (b : UInt8) (other : i / 8 ≠ j) :
    bitAt (Function.update q j b) i = bitAt q i := by
  simp [bitAt, Function.update_of_ne other]

theorem bitAt_update_self (q : Nat → UInt8) {j i : Nat} (b : UInt8) (same : i / 8 = j) :
    bitAt (Function.update q j b) i = bitOf b (i % 8) := by
  simp [bitAt, same]

end Xnu
