import Xnu.Tty.Clist

namespace Xnu.Tty

/-! The quote bitmap macros and `clrbits` read as operations on bits: each
stays inside the bitmap for the indices the clist uses, `setbit` and
`clrbit` change the one bit they name, and `clrbits(cp, off, len)` clears the
bits `off` to `off + len - 1` and no other. -/

section Bits

variable {size : Nat} {cp : Nat → UInt8}

theorem bitmapByte_of_lt {j : Nat} (inside : j < size) : bitmapByte size cp j = some (cp j) := by
  simp [bitmapByte, inside]

theorem setBitmapByte_of_lt {j : Nat} (b : UInt8) (inside : j < size) :
    setBitmapByte size cp j b = some (Function.update cp j b) := by
  simp [setBitmapByte, inside]

/-- `isset` reads the bit, for an index whose byte is in the bitmap. -/
theorem isset_eq {i : Nat} (inside : i / 8 < size) : isset size cp i = some (bitAt cp i) := by
  have low : i % 8 < 8 := Nat.mod_lt _ (by decide)
  simp only [isset, bitmapByte_of_lt inside, Option.bind_eq_bind, Option.bind_some, Option.pure_def, Option.some.injEq]
  rw [bitAt, Bool.eq_iff_iff, decide_eq_true_iff]
  exact UInt8.and_one_shiftLeft_ne_zero _ low

/-- `setbit` sets bit `i` and no other. -/
theorem setbit_eq (cp : Nat → UInt8) {i : Nat} (inside : i / 8 < size) :
    ∃ cp', setbit size cp i = some cp' ∧ ∀ j, bitAt cp' j = (bitAt cp j || decide (j = i)) := by
  refine ⟨Function.update cp (i / 8) (cp (i / 8) ||| (1 <<< (i % 8)).toUInt8),
    by simp [setbit, bitmapByte_of_lt inside, setBitmapByte_of_lt _ inside], fun j => ?_⟩
  by_cases sameByte : j / 8 = i / 8
  · have low : j % 8 < 8 := Nat.mod_lt _ (by decide)
    rw [bitAt_update_self _ _ sameByte, bitOf_or, bitOf_toUInt8 _ low, testBit_one_shiftLeft, bitAt, sameByte]
    congr 1
    exact decide_eq_decide.mpr ⟨fun same => by omega, fun same => by rw [same]⟩
  · rw [bitAt_update_of_ne _ _ sameByte]
    have other : j ≠ i := fun same => sameByte (by rw [same])
    simp [other]

/-- `clrbit` clears bit `i` and no other. -/
theorem clrbit_eq (cp : Nat → UInt8) {i : Nat} (inside : i / 8 < size) :
    ∃ cp', clrbit size cp i = some cp' ∧ ∀ j, bitAt cp' j = (bitAt cp j && !decide (j = i)) := by
  refine ⟨Function.update cp (i / 8) (cp (i / 8) &&& ~~~(1 <<< (i % 8)).toUInt8),
    by simp [clrbit, bitmapByte_of_lt inside, setBitmapByte_of_lt _ inside], fun j => ?_⟩
  by_cases sameByte : j / 8 = i / 8
  · have low : j % 8 < 8 := Nat.mod_lt _ (by decide)
    rw [bitAt_update_self _ _ sameByte, bitOf_and, bitOf_not _ low, bitOf_toUInt8 _ low, testBit_one_shiftLeft,
      bitAt, sameByte]
    congr 2
    exact decide_eq_decide.mpr ⟨fun same => by omega, fun same => by rw [same]⟩
  · rw [bitAt_update_of_ne _ _ sameByte]
    have other : j ≠ i := fun same => sameByte (by rw [same])
    simp [other]

/-- The loop of `clrbits` zeroes the bytes `i` to `i + n - 1`. -/
theorem zeroBytes_eq (cp : Nat → UInt8) {i n : Nat} (inside : i + n ≤ size) :
    zeroBytes size cp i n = some fun j => if i ≤ j ∧ j < i + n then 0 else cp j := by
  induction n generalizing cp i with
  | zero =>
    simp only [zeroBytes, Nat.add_zero, Option.some.injEq]
    funext j
    rw [if_neg (by omega)]
  | succ n ih =>
    simp only [zeroBytes, setBitmapByte_of_lt _ (show i < size by omega), Option.bind_eq_bind, Option.bind_some]
    rw [ih _ (by omega)]
    congr 1
    funext j
    by_cases at_i : j = i
    · subst at_i
      simp
    · simp only [Function.update_of_ne at_i]
      congr 1
      exact propext (by omega)

end Bits

/-- The mask of the bits below `s`. -/
theorem bitOf_low_mask (b : UInt8) {s k : Nat} (low : k < 8) :
    bitOf (b &&& ((1 <<< s) - 1).toUInt8) k = (bitOf b k && decide (k < s)) := by
  rw [bitOf_and, bitOf_toUInt8 _ low, Nat.one_shiftLeft, Nat.testBit_two_pow_sub_one]

/-- The mask of the bits from `s` up to `e`, cleared. -/
theorem bitOf_clear_mask (b : UInt8) {s e k : Nat} (low : k < 8) :
    bitOf (b &&& ~~~(((1 <<< (e - s)) - 1) <<< s).toUInt8) k = (bitOf b k && !(decide (s ≤ k) && decide (k < e))) := by
  rw [bitOf_and, bitOf_not _ low, bitOf_toUInt8 _ low, testBit_mask]

theorem low_mask_eq_zero_iff {e : Nat} (low : e < 8) : ((1 <<< e) - 1).toUInt8 = 0 ↔ e = 0 := by
  interval_cases e <;> decide

/-- `clrbits` where the bits lie in one byte, `sby == eby`. -/
theorem clrbits_within_byte {size : Nat} (cp : Nat → UInt8) {off len : Nat} (two : 2 ≤ len)
    (sameByte : off / 8 = (off + len) / 8) (inside : off / 8 < size) :
    ∃ cp', clrbits size cp off len = some cp' ∧ ∀ i, bitAt cp' i = (bitAt cp i && !decide (off ≤ i ∧ i < off + len)) := by
  let mask := (((1 <<< ((off + len) % 8 - off % 8)) - 1) <<< (off % 8)).toUInt8
  refine ⟨Function.update cp (off / 8) (cp (off / 8) &&& ~~~mask), ?_, fun i => ?_⟩
  · simp only [clrbits, if_neg (show len ≠ 1 by omega), if_pos sameByte, bitmapByte_of_lt inside,
      Option.bind_eq_bind, Option.bind_some, setBitmapByte_of_lt _ inside]
    rfl
  have low : i % 8 < 8 := Nat.mod_lt _ (by decide)
  by_cases inByte : i / 8 = off / 8
  · rw [bitAt_update_self _ _ inByte, bitOf_clear_mask _ low, bitAt, inByte]
    congr 2
    simp only [Bool.decide_and]
    congr 1 <;> exact decide_eq_decide.mpr (by omega)
  · -- the cleared bits all lie in the byte `off / 8`
    rw [bitAt_update_of_ne _ _ inByte, decide_eq_false (by omega), Bool.not_false, Bool.and_true]

/-- The first byte of a `clrbits` over several bytes keeps its bits below
`off % 8`; the bits it clears are those of the range in that byte. -/
theorem bitOf_first_byte (b : UInt8) {off len i : Nat} (first : i / 8 = off / 8) (across : off / 8 < (off + len) / 8) :
    bitOf (b &&& ((1 <<< (off % 8)) - 1).toUInt8) (i % 8) = (bitOf b (i % 8) && !decide (off ≤ i ∧ i < off + len)) := by
  rw [bitOf_low_mask _ (Nat.mod_lt _ (by decide))]
  have below : i % 8 < off % 8 ↔ ¬ (off ≤ i ∧ i < off + len) := by omega
  simp only [below, decide_not]

/-- The last byte keeps its bits from `(off + len) % 8` up. -/
theorem bitOf_last_byte (b : UInt8) {off len i : Nat} (last : i / 8 = (off + len) / 8) (across : off / 8 < (off + len) / 8) :
    bitOf (b &&& ~~~((1 <<< ((off + len) % 8)) - 1).toUInt8) (i % 8) =
      (bitOf b (i % 8) && !decide (off ≤ i ∧ i < off + len)) := by
  have low : i % 8 < 8 := Nat.mod_lt _ (by decide)
  rw [bitOf_and, bitOf_not _ low, bitOf_toUInt8 _ low, Nat.one_shiftLeft, Nat.testBit_two_pow_sub_one]
  congr 2
  exact decide_eq_decide.mpr (by omega)

/-- `clrbits` where the bits run over several bytes: the bits from `sbi` up of
the first byte, the bytes between, and the bits below `ebi` of the last. -/
theorem clrbits_across_bytes {size : Nat} (cp : Nat → UInt8) {off len : Nat} (two : 2 ≤ len)
    (across : off / 8 ≠ (off + len) / 8) (inside : off + len ≤ 8 * size) :
    ∃ cp', clrbits size cp off len = some cp' ∧ ∀ i, bitAt cp' i = (bitAt cp i && !decide (off ≤ i ∧ i < off + len)) := by
  have firstIn : off / 8 < size := by omega
  have before : off / 8 < (off + len) / 8 := by omega
  have ebiLow : (off + len) % 8 < 8 := Nat.mod_lt _ (by decide)
  have zeroed := zeroBytes_eq
    (Function.update cp (off / 8) (cp (off / 8) &&& ((1 <<< (off % 8)) - 1).toUInt8))
    (show off / 8 + 1 + ((off + len) / 8 - (off / 8 + 1)) ≤ size by omega)
  -- a bit of a byte between the first and the last is cleared, and lies in the range
  have between : ∀ i, off / 8 + 1 ≤ i / 8 ∧ i / 8 < off / 8 + 1 + ((off + len) / 8 - (off / 8 + 1)) →
      false = (bitAt cp i && !decide (off ≤ i ∧ i < off + len)) := by
    intro i inside
    rw [decide_eq_true (by omega)]
    simp
  by_cases ends : (off + len) % 8 = 0
  · -- no bit of the byte at `off + len` lies in the range
    have zero : ((1 <<< ((off + len) % 8)) - 1).toUInt8 = 0 := (low_mask_eq_zero_iff ebiLow).mpr ends
    refine ⟨fun j => if off / 8 + 1 ≤ j ∧ j < off / 8 + 1 + ((off + len) / 8 - (off / 8 + 1)) then 0
      else Function.update cp (off / 8) (cp (off / 8) &&& ((1 <<< (off % 8)) - 1).toUInt8) j, ?_, fun i => ?_⟩
    · simp only [clrbits, if_neg (show len ≠ 1 by omega), if_neg across, bitmapByte_of_lt firstIn,
        Option.bind_eq_bind, Option.bind_some, setBitmapByte_of_lt _ firstIn, zero, ne_eq, not_true_eq_false,
        if_false, Option.pure_def]
      exact zeroed
    simp only [bitAt]
    split
    · rename_i inBetween
      rw [bitOf_zero]
      exact between i inBetween
    by_cases first : i / 8 = off / 8
    · rw [first, Function.update_self, ← first, bitOf_first_byte _ first before, first]
    · rw [Function.update_of_ne first, decide_eq_false (by omega), Bool.not_false, Bool.and_true]
  · have nonzero : ((1 <<< ((off + len) % 8)) - 1).toUInt8 ≠ 0 := fun zero => ends ((low_mask_eq_zero_iff ebiLow).mp zero)
    have lastIn : (off + len) / 8 < size := by omega
    have notFirst : (off + len) / 8 ≠ off / 8 := by omega
    refine ⟨fun j => if off / 8 + 1 ≤ j ∧ j < off / 8 + 1 + ((off + len) / 8 - (off / 8 + 1)) then 0
      else Function.update (Function.update cp (off / 8) (cp (off / 8) &&& ((1 <<< (off % 8)) - 1).toUInt8))
        ((off + len) / 8) (cp ((off + len) / 8) &&& ~~~((1 <<< ((off + len) % 8)) - 1).toUInt8) j, ?_, fun i => ?_⟩
    · simp only [clrbits, if_neg (show len ≠ 1 by omega), if_neg across, bitmapByte_of_lt firstIn,
        Option.bind_eq_bind, Option.bind_some, setBitmapByte_of_lt _ firstIn, nonzero, ne_eq, not_false_eq_true,
        if_true, bitmapByte_of_lt lastIn, setBitmapByte_of_lt _ lastIn, Function.update_of_ne notFirst]
      exact zeroBytes_eq _ (by omega)
    simp only [bitAt]
    split
    · rename_i inBetween
      rw [bitOf_zero]
      exact between i inBetween
    by_cases last : i / 8 = (off + len) / 8
    · rw [last, Function.update_self, ← last, bitOf_last_byte _ last before, last]
    rw [Function.update_of_ne last]
    by_cases first : i / 8 = off / 8
    · rw [first, Function.update_self, ← first, bitOf_first_byte _ first before, first]
    · rw [Function.update_of_ne first, decide_eq_false (by omega), Bool.not_false, Bool.and_true]

/-- `clrbits(cp, off, len)` on a bitmap of `size` bytes with `len ≥ 1` and
`off + len` within it clears the bits from `off` to `off + len - 1` and
keeps the others. -/
theorem clrbits_eq {size : Nat} (cp : Nat → UInt8) {off len : Nat} (nonempty : 0 < len)
    (inside : off + len ≤ 8 * size) :
    ∃ cp', clrbits size cp off len = some cp' ∧ ∀ i, bitAt cp' i = (bitAt cp i && !decide (off ≤ i ∧ i < off + len)) := by
  by_cases one : len = 1
  · subst one
    obtain ⟨cp', cleared, bits⟩ := clrbit_eq cp (show off / 8 < size by omega)
    refine ⟨cp', by rw [clrbits, if_pos rfl, cleared], fun i => ?_⟩
    rw [bits i]
    congr 2
    exact decide_eq_decide.mpr (by omega)
  by_cases sameByte : off / 8 = (off + len) / 8
  · exact clrbits_within_byte cp (by omega) sameByte (by omega)
  · exact clrbits_across_bytes cp (by omega) sameByte inside

end Xnu.Tty
