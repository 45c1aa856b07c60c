import Xnu.Kern.Bits
import Xnu.Lib.BitScan

namespace Xnu.Bits

/-! What the scans of `bits.h` return: the greatest or the least set position
of a word, then of a bitmap, as `greatestBelow` and `leastFrom` find it, cast
to `int`. For bitmaps of at most `2^31` bits every position fits in `int`, and
the loops over `bitmap_next` and `bitmap_lsb_next` visit each set position once,
in order; past `2^31` bits a position no longer fits. -/

/-- Bit `n` of the bitmap `map`. -/
def bitAt (map : List UInt64) (n : Nat) : Bool := (map.getD (n / 64) 0).toNat.testBit (n % 64)

/-- The `int` a scan returns: the position found, or `-1`. -/
def code : Option Nat → Int32
  | none => -1
  | some n => n.toInt32

/-- A position found, or `-1`, as an integer. -/
def posOrNeg : Option Nat → Int
  | none => -1
  | some n => n

section Casts

theorem toInt32_toInt {m : Nat} (small : m < 2 ^ 31) : m.toInt32.toInt = m := Int32.toInt_ofNat_of_lt small

theorem toInt32_eq_zero {m : Nat} (small : m < 2 ^ 31) : m.toInt32 = 0 ↔ m = 0 := by
  rw [← Int32.toInt_inj, toInt32_toInt small, Int32.toInt_zero]
  omega

theorem toNat_mask {m : Nat} (low : m < 64) : (mask m.toInt32).toNat = 2 ^ m - 1 := by
  have small : ¬m.toInt32 ≥ 64 := by
    rw [ge_iff_le, Int32.le_iff_toInt_le, toInt32_toInt (by omega)]
    simp only [Int32.reduceToInt]
    omega
  have count : m.toInt32.toNatClampNeg = m := Int32.toNatClampNeg_ofNat_of_lt (by omega)
  have shifted : ((1 : UInt64) <<< m.toUInt64).toNat = 2 ^ m := by
    rw [UInt64.toNat_shiftLeft]
    simp only [UInt64.toNat_one, Nat.toUInt64, UInt64.toNat_ofNat', Nat.mod_eq_of_lt (show m < 2 ^ 64 by omega),
      Nat.mod_eq_of_lt low, Nat.one_shiftLeft]
    exact Nat.mod_eq_of_lt (Nat.pow_lt_pow_right (by omega) low)
  have one_le : 1 ≤ (1 : UInt64) <<< m.toUInt64 := UInt64.le_iff_toNat_le.mpr (by rw [shifted]; exact Nat.one_le_two_pow)
  rw [mask, if_neg small, count, UInt64.toNat_sub_of_le _ _ one_le, shifted]
  rfl

theorem toNat_bits_low (x : UInt64) : (bits x 5 0).toNat = x.toNat % 64 := by
  have width : (5 - 0 + 1 : Int32) = (6 : Nat).toInt32 := by decide
  rw [bits, width, UInt64.toNat_and, toNat_mask (by omega), show (0 : Int32).toNatClampNeg.toUInt64 = 0 from rfl,
    UInt64.shiftRight_zero]
  exact Nat.and_two_pow_sub_one_eq_mod x.toNat 6

theorem toNat_bitmapIndex (n : UInt32) : (bitmapIndex n).toNat = n.toNat / 64 := by
  have width : (63 - 6 + 1 : Int32) = (58 : Nat).toInt32 := by decide
  rw [bitmapIndex, bits, width, UInt64.toNat_and, toNat_mask (by omega), UInt64.toNat_shiftRight]
  simp only [UInt32.toNat_toUInt64, show (6 : Int32).toNatClampNeg.toUInt64.toNat % 64 = 6 from rfl,
    Nat.shiftRight_eq_div_pow]
  rw [Nat.and_two_pow_sub_one_eq_mod]
  have := n.toNat_lt
  omega

theorem shift_add_int32 (i r : Nat) : (i.toInt32 <<< 6) + r.toInt32 = (64 * i + r).toInt32 := by
  apply Int32.toBitVec_inj.mp
  apply BitVec.eq_of_toNat_eq
  simp [Int32.toBitVec_shiftLeft, BitVec.toNat_shiftLeft, Nat.shiftLeft_eq]
  omega

theorem shift_add_int64 (i r : Nat) : ((i.toInt64 <<< 6) + r.toInt64).toInt32 = (64 * i + r).toInt32 := by
  apply Int32.toBitVec_inj.mp
  apply BitVec.eq_of_toNat_eq
  simp [Int64.toBitVec_shiftLeft, BitVec.signExtend_eq_setWidth_of_le, BitVec.toNat_shiftLeft]
  omega

theorem shift_add_uint32 (i r : Nat) : ((i.toUInt32 <<< 6) + r.toUInt32).toInt32 = (64 * i + r).toInt32 := by
  apply Int32.toBitVec_inj.mp
  apply BitVec.eq_of_toNat_eq
  simp [UInt32.toBitVec_shiftLeft]
  omega

theorem shift_add_uint64 (i r : Nat) : ((i.toUInt64 <<< 6) + r.toUInt64).toUInt32.toInt32 = (64 * i + r).toInt32 := by
  apply Int32.toBitVec_inj.mp
  apply BitVec.eq_of_toNat_eq
  simp [BitVec.toNat_shiftLeft]
  omega

theorem toInt32_toInt64 {r : Nat} (small : r < 2 ^ 31) : r.toInt32.toInt64 = r.toInt64 := by
  apply Int64.toInt_inj.mp
  rw [Int32.toInt_toInt64, toInt32_toInt small, Int64.toInt_ofNat_of_lt (by omega)]

theorem toInt32_pred (s : Nat) : ((s.toUInt64 - 1).toUInt32).toInt32 = s.toInt32 - 1 := by
  apply Int32.toBitVec_inj.mp
  apply BitVec.eq_of_toNat_eq
  simp

theorem bitmapIndex_eq (n : UInt32) : bitmapIndex n = (n.toNat / 64).toUInt64 := by
  apply UInt64.toNat_inj.mp
  rw [toNat_bitmapIndex, UInt64.toNat_ofNat']
  have := n.toNat_lt
  omega

end Casts

section Words

theorem testBit_not (w : UInt64) {j : Nat} (inside : j < 64) : (~~~w).toNat.testBit j = !w.toNat.testBit j := by
  have flipped := BitVec.getLsbD_not (x := w.toBitVec) (i := j)
  simp only [BitVec.getLsbD, UInt64.toNat_toBitVec] at flipped
  rw [UInt64.toNat, UInt64.toBitVec_not, flipped]
  simp [inside]

theorem testBit_and_mask (w : UInt64) {m : Nat} (low : m < 64) (j : Nat) :
    (w &&& mask m.toInt32).toNat.testBit j = (w.toNat.testBit j && decide (j < m)) := by
  rw [UInt64.toNat_and, toNat_mask low, Nat.testBit_and, Nat.testBit_two_pow_sub_one]

theorem testBit_and_not_mask (w : UInt64) {m j : Nat} (low : m < 64) (inside : j < 64) :
    (w &&& ~~~mask m.toInt32).toNat.testBit j = (w.toNat.testBit j && decide (m ≤ j)) := by
  rw [UInt64.toNat_and, Nat.testBit_and, testBit_not _ inside, toNat_mask low, Nat.testBit_two_pow_sub_one,
    ← decide_not]
  simp only [Nat.not_lt]

/-- A word has no set bit from 64 on. -/
theorem testBit_of_le (w : UInt64) {j : Nat} (high : 64 ≤ j) : w.toNat.testBit j = false :=
  Nat.testBit_lt_two_pow (lt_of_lt_of_le w.toNat_lt (Nat.pow_le_pow_right (by omega) high))

theorem greatestBelow_word (w : UInt64) :
    greatestBelow w.toNat.testBit 64 = if w = 0 then none else some w.toNat.log2 := by
  split
  · rename_i zero
    rw [zero, greatestBelow_eq_none]
    exact fun j _ => Nat.zero_testBit j
  · rename_i nonzero
    have value : w.toNat ≠ 0 := fun zero => nonzero (UInt64.toNat_inj.mp zero)
    refine greatestBelow_eq_some.mpr ⟨(Nat.log2_lt value).mpr w.toNat_lt, Nat.testBit_log2 value, ?_⟩
    intro j above _
    exact Nat.testBit_lt_two_pow (lt_of_lt_of_le Nat.lt_log2_self (Nat.pow_le_pow_right (by omega) above))

theorem bitFirst_eq (w : UInt64) : bitFirst w = code (greatestBelow w.toNat.testBit 64) := by
  rw [greatestBelow_word]
  by_cases zero : w = 0
  · rw [if_pos zero, zero]
    decide
  · have value : w.toNat ≠ 0 := fun eq => zero (UInt64.toNat_inj.mp eq)
    have top : w.toNat.log2 < 64 := (Nat.log2_lt value).mpr w.toNat_lt
    rw [if_neg zero, code, bitFirst, clz, if_neg zero]
    apply Int32.toInt_inj.mp
    simp only [Int64.toInt32_ofNat', Int32.toInt_sub, Int32.reduceToInt, Int32.toInt_ofNat', Nat.reducePow,
      Int.sub_bmod_bmod]
    rw [show (63 : Int) - ((63 - w.toNat.log2 : Nat) : Int) = w.toNat.log2 by omega]

theorem code_nonneg_iff {o : Option Nat} (small : ∀ n ∈ o, n < 2 ^ 31) : 0 ≤ code o ↔ o.isSome := by
  cases o with
  | none => simp only [code, Option.isSome_none, Bool.false_eq_true, iff_false]; decide
  | some n =>
    simp only [code, Option.isSome_some, iff_true]
    rw [Int32.le_iff_toInt_le, toInt32_toInt (small n rfl)]
    simp

/-- `__bit_next(w, b)` for `b` in `[0, 64)` scans the bits below `b`, all of them for `b = 0`. -/
theorem bitNextInner_eq (w : UInt64) {b : Nat} (low : b < 64) :
    bitNextInner w b.toInt32 = code (greatestBelow w.toNat.testBit (if b = 0 then 64 else b)) := by
  unfold bitNextInner
  by_cases zero : b = 0
  · subst zero
    rw [if_neg (by decide), if_pos rfl, show w &&& ~~~0 = w by simp]
    exact bitFirst_eq w
  · rw [if_pos ((toInt32_eq_zero (by omega)).not.mpr zero), if_neg zero, bitFirst_eq]
    have above : ∀ j, b ≤ j → j < 64 → (w &&& mask b.toInt32).toNat.testBit j = false := fun j high _ => by
      rw [testBit_and_mask w low]
      simp only [Bool.and_eq_false_iff, decide_eq_false_iff_not, Nat.not_lt]
      exact Or.inr high
    rw [greatestBelow_of_le (by omega) above]
    exact congrArg code (greatestBelow_congr fun j below => by rw [testBit_and_mask w low]; simp [below])

theorem lsbFirst_eq (w : UInt64) : lsbFirst w = code (leastFrom w.toNat.testBit 0 64) := by
  rw [lsbFirst, ffsll, find?_range_eq_leastFrom]
  cases leastFrom w.toNat.testBit 0 64 with
  | none => decide
  | some i => exact Int32.add_sub_cancel i.toInt32 1

/-- `lsb_next(w, s - 1)` for `s` in `[0, 64)` scans the bits from `s` on. -/
theorem lsbNext_eq (w : UInt64) {s : Nat} (low : s < 64) :
    lsbNext w (s.toInt32 - 1) = code (leastFrom w.toNat.testBit s (64 - s)) := by
  rw [lsbNext, Int32.sub_add_cancel, lsbFirst_eq]
  have below : ∀ j, 0 ≤ j → j < 0 + s → (w &&& ~~~mask s.toInt32).toNat.testBit j = false := fun j _ high => by
    rw [testBit_and_not_mask w low (by omega)]
    simp only [Bool.and_eq_false_iff, decide_eq_false_iff_not, Nat.not_le]
    exact Or.inr (by omega)
  have split : leastFrom (w &&& ~~~mask s.toInt32).toNat.testBit 0 (s + (64 - s)) =
      leastFrom (w &&& ~~~mask s.toInt32).toNat.testBit (0 + s) (64 - s) := leastFrom_of_clear below
  rw [Nat.add_sub_cancel' low.le, Nat.zero_add] at split
  rw [split]
  exact congrArg code (leastFrom_congr fun j above high => by rw [testBit_and_not_mask w low (by omega)]; simp [above])

theorem leastFrom_word_eq_none (w : UInt64) : leastFrom w.toNat.testBit 0 64 = none ↔ w = 0 := by
  constructor
  · intro clear
    apply UInt64.toNat_inj.mp
    apply Nat.eq_of_testBit_eq
    intro j
    rw [UInt64.toNat_zero, Nat.zero_testBit]
    by_cases inside : j < 64
    · exact leastFrom_eq_none.mp clear j (Nat.zero_le j) inside
    · exact testBit_of_le w (by omega)
  · rintro rfl
    exact leastFrom_eq_none.mpr fun j _ _ => Nat.zero_testBit j

end Words

section Bitmaps

variable (map : List UInt64)

theorem bitAt_word (i : Nat) {j : Nat} (inside : j < 64) : bitAt map (64 * i + j) = (map.getD i 0).toNat.testBit j := by
  rw [bitAt, show (64 * i + j) / 64 = i by omega, show (64 * i + j) % 64 = j by omega]

/-- The loop `scanDown` over the words below `k` finds the greatest set bit below `64 * k`. -/
theorem scanDown_eq {found : Nat → UInt64 → Int32}
    (spec : ∀ i w r, greatestBelow w.toNat.testBit 64 = some r → found i w = (64 * i + r).toInt32) :
    ∀ k, scanDown found map k = code (greatestBelow (bitAt map) (64 * k))
  | 0 => rfl
  | k + 1 => by
    have word : greatestBelow (fun j => bitAt map (64 * k + j)) 64 = greatestBelow (map.getD k 0).toNat.testBit 64 :=
      greatestBelow_congr fun j inside => bitAt_word map k inside
    rw [scanDown, Nat.mul_succ, greatestBelow_add, word]
    by_cases zero : map.getD k 0 = 0
    · rw [if_pos zero, zero, greatestBelow_word, if_pos rfl, Option.map_none, Option.none_or]
      exact scanDown_eq spec k
    · obtain ⟨r, top⟩ : ∃ r, greatestBelow (map.getD k 0).toNat.testBit 64 = some r := by
        rw [greatestBelow_word, if_neg zero]
        exact ⟨_, rfl⟩
      rw [if_neg zero, spec k _ r top, top]
      rfl

/-- The loop `scanUp` over `count` words from `lo` finds the least set bit in
`[64 * lo, 64 * (lo + count))`. -/
theorem scanUp_eq {found : Nat → UInt64 → Int32}
    (spec : ∀ i w r, leastFrom w.toNat.testBit 0 64 = some r → found i w = (64 * i + r).toInt32) :
    ∀ lo count, scanUp found map lo count = code (leastFrom (bitAt map) (64 * lo) (64 * count))
  | _, 0 => rfl
  | lo, count + 1 => by
    have word : leastFrom (bitAt map) (64 * lo) 64 = (leastFrom (map.getD lo 0).toNat.testBit 0 64).map (64 * lo + ·) := by
      have shifted : leastFrom (bitAt map) (64 * lo + 0) 64 =
          (leastFrom (fun j => bitAt map (64 * lo + j)) 0 64).map (64 * lo + ·) := leastFrom_add_base _ _ _
      rw [Nat.add_zero] at shifted
      rw [shifted]
      exact congrArg _ (leastFrom_congr fun j _ high => bitAt_word map lo high)
    rw [scanUp, Nat.mul_succ, Nat.add_comm (64 * count) 64, leastFrom_add, word,
      show 64 * lo + 64 = 64 * (lo + 1) by ring]
    by_cases zero : map.getD lo 0 = 0
    · rw [if_pos zero, zero, (leastFrom_word_eq_none 0).mpr rfl, Option.map_none, Option.none_or]
      exact scanUp_eq spec (lo + 1) count
    · obtain ⟨r, bottom⟩ : ∃ r, leastFrom (map.getD lo 0).toNat.testBit 0 64 = some r :=
        Option.ne_none_iff_exists'.mp fun none => zero ((leastFrom_word_eq_none _).mp none)
      rw [if_neg zero, spec lo _ r bottom, bottom]
      rfl

/-- The bits of a bitmap from `64 * i + s` to the end of word `last` are those of
word `i` from `s`, then those of the words after it. -/
theorem leastFrom_from_word {i s last : Nat} (low : s < 64) (before : i ≤ last) :
    leastFrom (bitAt map) (64 * i + s) (64 * (last + 1) - (64 * i + s)) =
      ((leastFrom (map.getD i 0).toNat.testBit s (64 - s)).map (64 * i + ·)).or
        (leastFrom (bitAt map) (64 * (i + 1)) (64 * (last - i))) := by
  rw [show 64 * (last + 1) - (64 * i + s) = (64 - s) + 64 * (last - i) by omega, leastFrom_add,
    show 64 * i + s + (64 - s) = 64 * (i + 1) by omega, leastFrom_add_base]
  congr 2
  exact leastFrom_congr fun j _ high => bitAt_word map i (by omega)

theorem toNat_last {nbits : UInt32} (pos : 0 < nbits.toNat) :
    (bitmapIndex (nbits - 1)).toNat = (nbits.toNat - 1) / 64 := by
  have one : (1 : UInt32) ≤ nbits := UInt32.le_iff_toNat_le.mpr (by rw [UInt32.toNat_one]; omega)
  rw [toNat_bitmapIndex, UInt32.toNat_sub_of_le _ _ one, UInt32.toNat_one]

/-- `bitmap_next(map, prev)` finds the greatest set bit below `prev`. -/
theorem bitmapNext_eq (prev : UInt32) : bitmapNext map prev = code (greatestBelow (bitAt map) prev.toNat) := by
  unfold bitmapNext
  by_cases zero : prev = 0
  · rw [if_pos zero, zero]
    rfl
  · have pos : 0 < prev.toNat := Nat.pos_of_ne_zero fun eq => zero (UInt32.toNat_inj.mp eq)
    have word : (bitmapIndex (prev - 1)).toInt64 = ((prev.toNat - 1) / 64).toInt64 := by
      rw [bitmapIndex_eq, UInt64.toInt64_ofNat', UInt32.toNat_sub_of_le _ _ (UInt32.le_iff_toNat_le.mpr (by
        rw [UInt32.toNat_one]; omega)), UInt32.toNat_one]
    have bit : (bits prev.toUInt64 5 0).toUInt32.toInt32 = (prev.toNat % 64).toInt32 := by
      have low : (bits prev.toUInt64 5 0).toUInt32 = (prev.toNat % 64).toUInt32 := by
        apply UInt32.toNat_inj.mp
        rw [UInt64.toNat_toUInt32, toNat_bits_low, UInt32.toNat_toUInt64, UInt32.toNat_ofNat']
      rw [low, UInt32.toInt32_ofNat']
    have := prev.toNat_lt
    rw [if_neg zero]
    dsimp only
    rw [word, bit, Int64.toNatClampNeg_ofNat_of_lt (by omega), bitNextInner_eq _ (Nat.mod_lt _ (by omega))]
    set i := (prev.toNat - 1) / 64 with index
    set top := if prev.toNat % 64 = 0 then 64 else prev.toNat % 64 with topEq
    have split : prev.toNat = 64 * i + top := by rw [topEq]; split <;> omega
    have inWord : greatestBelow (fun j => bitAt map (64 * i + j)) top = greatestBelow (map.getD i 0).toNat.testBit top :=
      greatestBelow_congr fun j inside => bitAt_word map i (by rw [topEq] at inside; split at inside <;> omega)
    have spec : ∀ (i : Nat) w r, greatestBelow w.toNat.testBit 64 = some r →
        ((i.toInt64 <<< 6) + (bitFirst w).toInt64).toInt32 = (64 * i + r).toInt32 := fun i w r top => by
      have low : r < 64 := (greatestBelow_eq_some.mp top).1
      rw [bitFirst_eq, top, code, toInt32_toInt64 (by omega), shift_add_int64]
    rw [congrArg (greatestBelow (bitAt map)) split, greatestBelow_add, inWord]
    cases found : greatestBelow (map.getD i 0).toNat.testBit top with
    | some r =>
      have low : r < 64 := by have := (greatestBelow_eq_some.mp found).1; rw [topEq] at this; split at this <;> omega
      rw [if_pos ((code_nonneg_iff fun n member => by cases member; omega).mpr rfl)]
      simp only [code, Option.map_some, Option.some_or]
      rw [toInt32_toInt64 (by omega), Int64.add_comm, shift_add_int64]
    | none =>
      rw [if_neg (by decide), Option.map_none, Option.none_or]
      exact scanDown_eq map spec i

section Clear

variable {map} {nbits : UInt32} (clear : ∀ q, nbits.toNat ≤ q → bitAt map q = false)
include clear

/-- `bitmap_first(map, nbits)` finds the greatest set bit below `nbits`. -/
theorem bitmapFirst_eq (pos : 0 < nbits.toNat) :
    bitmapFirst map nbits = code (greatestBelow (bitAt map) nbits.toNat) := by
  have spec : ∀ (i : Nat) w r, greatestBelow w.toNat.testBit 64 = some r →
      (i.toInt32 <<< 6) + bitFirst w = (64 * i + r).toInt32 := fun i w r top => by
    rw [bitFirst_eq, top, code, shift_add_int32]
  rw [bitmapFirst, scanDown_eq map spec, toNat_last pos,
    greatestBelow_of_le (by omega) fun j low _ => clear j low]

/-- `bitmap_lsb_first(map, nbits)` finds the least set bit below `nbits`. -/
theorem bitmapLsbFirst_eq (pos : 0 < nbits.toNat) :
    bitmapLsbFirst map nbits = code (leastFrom (bitAt map) 0 nbits.toNat) := by
  have spec : ∀ (i : Nat) w r, leastFrom w.toNat.testBit 0 64 = some r →
      ((i.toUInt32 <<< 6) + (lsbFirst w).toUInt32).toInt32 = (64 * i + r).toInt32 := fun i w r bottom => by
    rw [lsbFirst_eq, bottom, code, Int32.toUInt32_ofNat', shift_add_uint32]
  rw [bitmapLsbFirst, scanUp_eq map spec, toNat_last pos, Nat.mul_zero,
    leastFrom_of_le (m := nbits.toNat) (by omega) fun j low _ => clear j (by omega)]

/-- `bitmap_lsb_next(map, nbits, prev)` finds the least set bit above `prev` and below `nbits`. -/
theorem bitmapLsbNext_eq {prev : UInt32} (inside : prev.toNat < nbits.toNat) :
    bitmapLsbNext map nbits prev = code (leastFrom (bitAt map) (prev.toNat + 1) (nbits.toNat - (prev.toNat + 1))) := by
  have := nbits.toNat_lt
  have next : (prev + 1).toNat = prev.toNat + 1 := by
    rw [UInt32.toNat_add, UInt32.toNat_one]
    omega
  unfold bitmapLsbNext
  by_cases last : prev + 1 ≥ nbits
  · have empty : nbits.toNat - (prev.toNat + 1) = 0 := by
      have := UInt32.le_iff_toNat_le.mp last
      omega
    rw [if_pos last, empty]
    rfl
  · have below : prev.toNat + 1 < nbits.toNat := by
      have := mt UInt32.le_iff_toNat_le.mpr last
      omega
    rw [if_neg last]
    dsimp only
    set i := (prev.toNat + 1) / 64 with index
    set s := (prev.toNat + 1) % 64 with bitEq
    have word : bitmapIndex (prev + 1) = i.toUInt64 := by rw [bitmapIndex_eq, next]
    have bitsEq : bits (prev + 1).toUInt64 5 0 = s.toUInt64 :=
      UInt64.toNat_inj.mp (by rw [toNat_bits_low, UInt32.toNat_toUInt64, next, UInt64.toNat_ofNat']; omega)
    have wordNat : i.toUInt64.toNat = i := by rw [UInt64.toNat_ofNat']; omega
    have spec : ∀ (i : Nat) w r, leastFrom w.toNat.testBit 0 64 = some r →
        ((i.toUInt64 <<< 6) + (lsbFirst w).toInt64.toUInt64).toUInt32.toInt32 = (64 * i + r).toInt32 := fun i w r bottom => by
      have low : r < 64 := by have := (leastFrom_eq_some.mp bottom).2.1; omega
      rw [lsbFirst_eq, bottom, code, toInt32_toInt64 (by omega), Int64.toUInt64_ofNat', shift_add_uint64]
    have extend : leastFrom (bitAt map) (prev.toNat + 1) (nbits.toNat - (prev.toNat + 1)) =
        leastFrom (bitAt map) (64 * i + s) (64 * ((nbits.toNat - 1) / 64 + 1) - (64 * i + s)) := by
      rw [show prev.toNat + 1 = 64 * i + s by omega]
      exact (leastFrom_of_le (by omega) fun j low high => clear j (by omega)).symm
    rw [word, bitsEq, toInt32_pred, wordNat, lsbNext_eq _ (Nat.mod_lt _ (by omega)), toNat_last (by omega), extend,
      leastFrom_from_word map (Nat.mod_lt _ (by omega)) (by omega)]
    cases found : leastFrom (map.getD i 0).toNat.testBit s (64 - s) with
    | some r =>
      have low : r < 64 := by have := (leastFrom_eq_some.mp found).2.1; omega
      rw [if_pos ((code_nonneg_iff fun n member => by cases member; omega).mpr rfl)]
      simp only [code, Option.map_some, Option.some_or]
      rw [toInt32_toInt64 (by omega), Int64.toUInt64_ofNat', UInt64.add_comm, shift_add_uint64]
    | none =>
      rw [if_neg (by decide), Option.map_none, Option.none_or, scanUp_eq map spec]

end Clear

end Bitmaps

section Loops

variable (map : List UInt64)

theorem toInt_code {o : Option Nat} (small : ∀ n ∈ o, n < 2 ^ 31) : (code o).toInt = posOrNeg o := by
  cases o with
  | none => rfl
  | some n => exact toInt32_toInt (small n rfl)

theorem foreachDown_of_neg {i : Int32} (neg : i < 0) (fuel : Nat) : foreachDown map fuel i = some [] := by
  cases fuel <;> simp only [foreachDown, if_pos neg]

theorem foreachUp_neg (nbits : UInt32) (fuel : Nat) : foreachUp map nbits fuel (-1) = some [] := by
  cases fuel <;> rfl

theorem toUInt32_toNat {n : Nat} (small : n < 2 ^ 31) : n.toInt32.toUInt32.toNat = n := by
  rw [Int32.toUInt32_ofNat', UInt32.toNat_ofNat']
  omega

theorem not_toInt32_neg {n : Nat} (small : n < 2 ^ 31) : ¬n.toInt32 < 0 := by
  rw [Int32.lt_iff_toInt_lt, toInt32_toInt small]
  simp

/-- From the greatest set bit below `n`, the loop over `bitmap_next` visits every
set bit below `n`, the highest first, and ends within `n + 1` passes. -/
theorem foreachDown_eq {n : Nat} (fits : n ≤ 2 ^ 31) :
    ∀ fuel, n < fuel → foreachDown map fuel (code (greatestBelow (bitAt map) n)) =
      some (((List.range n).reverse.filter (bitAt map)).map Nat.toInt32) := by
  induction n with
  | zero => exact fun fuel _ => foreachDown_of_neg map (show (-1 : Int32) < 0 by decide) fuel
  | succ n ih =>
    intro fuel enough
    obtain ⟨fuel, rfl⟩ : ∃ f, fuel = f + 1 := ⟨fuel - 1, by omega⟩
    rw [greatestBelow, List.range_succ, List.reverse_append, List.reverse_singleton, List.singleton_append]
    by_cases top : bitAt map n
    · rw [if_pos top, code, foreachDown, if_neg (not_toInt32_neg (by omega)), bitmapNext_eq,
        toUInt32_toNat (by omega), ih (by omega) fuel (by omega), List.filter_cons_of_pos top]
      rfl
    · rw [if_neg top, ih (by omega) (fuel + 1) (by omega), List.filter_cons_of_neg top]

/-- From the least set bit in `[lo, nbits)`, the loop over `bitmap_lsb_next` visits
every set bit in `[lo, nbits)`, the lowest first, and ends within `nbits - lo + 1` passes. -/
theorem foreachUp_eq {nbits : UInt32} (clear : ∀ q, nbits.toNat ≤ q → bitAt map q = false)
    (fits : nbits.toNat ≤ 2 ^ 31) :
    ∀ k lo, lo + k = nbits.toNat → ∀ fuel, k < fuel →
      foreachUp map nbits fuel (code (leastFrom (bitAt map) lo k)) =
        some (((List.range' lo k).filter (bitAt map)).map Nat.toInt32) := by
  intro k
  induction k with
  | zero => exact fun lo _ fuel _ => foreachUp_neg map nbits fuel
  | succ k ih =>
    intro lo total fuel enough
    obtain ⟨fuel, rfl⟩ : ∃ f, fuel = f + 1 := ⟨fuel - 1, by omega⟩
    rw [leastFrom, List.range'_succ]
    by_cases first : bitAt map lo
    · have rest : nbits.toNat - (lo + 1) = k := by omega
      rw [if_pos first, code, foreachUp, if_neg (not_toInt32_neg (by omega)),
        bitmapLsbNext_eq clear (by rw [toUInt32_toNat (by omega)]; omega), toUInt32_toNat (by omega), rest,
        ih (lo + 1) (by omega) fuel (by omega), List.filter_cons_of_pos first]
      rfl
    · rw [if_neg first, ih (lo + 1) (by omega) (fuel + 1) (by omega), List.filter_cons_of_neg first]

end Loops

/-- For a bitmap of `1 <= nbits <= 2^31` bits whose bits from `nbits` on are clear
(words past the end of `map` read as zero): `bitmap_first` returns the highest
set bit or `-1`; `bitmap_next(map, prev)` for `prev <= nbits` the highest set bit
below `prev` or `-1`; `bitmap_lsb_first` the lowest set bit or `-1`;
`bitmap_lsb_next(map, nbits, prev)` for `prev < nbits` the lowest set bit above
`prev` and below `nbits` or `-1`; and the loops from `bitmap_first` over
`bitmap_next` and from `bitmap_lsb_first` over `bitmap_lsb_next` end within
`nbits + 1` passes, having visited every set bit once, in descending and in
ascending order. -/
theorem bitmap_scans_correct {nbits : UInt32} (pos : 0 < nbits.toNat) (fits : nbits.toNat ≤ 2 ^ 31)
    {map : List UInt64} (clear : ∀ q, nbits.toNat ≤ q → bitAt map q = false) :
    (bitmapFirst map nbits).toInt = posOrNeg (greatestBelow (bitAt map) nbits.toNat) ∧
      (∀ prev : UInt32, prev.toNat ≤ nbits.toNat →
        (bitmapNext map prev).toInt = posOrNeg (greatestBelow (bitAt map) prev.toNat)) ∧
      (bitmapLsbFirst map nbits).toInt = posOrNeg (leastFrom (bitAt map) 0 nbits.toNat) ∧
      (∀ prev : UInt32, prev.toNat < nbits.toNat →
        (bitmapLsbNext map nbits prev).toInt =
          posOrNeg (leastFrom (bitAt map) (prev.toNat + 1) (nbits.toNat - (prev.toNat + 1)))) ∧
      foreachDown map (nbits.toNat + 1) (bitmapFirst map nbits) =
        some (((List.range nbits.toNat).reverse.filter (bitAt map)).map Nat.toInt32) ∧
      foreachUp map nbits (nbits.toNat + 1) (bitmapLsbFirst map nbits) =
        some (((List.range nbits.toNat).filter (bitAt map)).map Nat.toInt32) := by
  have below : ∀ m, m ≤ nbits.toNat → ∀ n ∈ greatestBelow (bitAt map) m, n < 2 ^ 31 := fun m le n found => by
    have := (greatestBelow_eq_some.mp found).1
    omega
  have above : ∀ lo k, lo + k ≤ nbits.toNat → ∀ n ∈ leastFrom (bitAt map) lo k, n < 2 ^ 31 := fun lo k le n found => by
    have := (leastFrom_eq_some.mp found).2.1
    omega
  refine ⟨?_, fun prev le => ?_, ?_, fun prev inside => ?_, ?_, ?_⟩
  · rw [bitmapFirst_eq clear pos, toInt_code (below _ le_rfl)]
  · rw [bitmapNext_eq, toInt_code (below _ le)]
  · rw [bitmapLsbFirst_eq clear pos, toInt_code (above 0 _ (by omega))]
  · rw [bitmapLsbNext_eq clear inside, toInt_code (above _ _ (by omega))]
  · rw [bitmapFirst_eq clear pos]
    exact foreachDown_eq map fits _ (by omega)
  · rw [bitmapLsbFirst_eq clear pos, foreachUp_eq map clear fits nbits.toNat 0 (by omega) _ (by omega),
      List.range_eq_range']

/-- The bitmap `[5]` of 64 bits: bits 0 and 2 set. -/
theorem bitmap_scans_correct_five :
    0 < (64 : UInt32).toNat ∧ (64 : UInt32).toNat ≤ 2 ^ 31 ∧ (∀ q, (64 : UInt32).toNat ≤ q → bitAt [5] q = false) ∧
      (bitmapFirst [5] 64).toInt = posOrNeg (greatestBelow (bitAt [5]) (64 : UInt32).toNat) := by
  have clear : ∀ q, (64 : UInt32).toNat ≤ q → bitAt [5] q = false := fun q high => by
    simp only [UInt32.reduceToNat] at high
    rw [bitAt, List.getD_eq_default _ _ (by simp only [List.length_singleton]; omega)]
    exact Nat.zero_testBit _
  exact ⟨by decide, by decide, clear, (bitmap_scans_correct (by decide) (by decide) clear).1⟩

/-- A bitmap of `2^31 + 1` bits with only bit `2^31` set: word `2^25` holds 1. -/
def topBitMap : List UInt64 := List.replicate (2 ^ 25) 0 ++ [1]

theorem getD_topBitMap (m : Nat) : topBitMap.getD m 0 = if m = 2 ^ 25 then 1 else 0 := by
  by_cases low : m < 2 ^ 25
  · rw [topBitMap, List.getD_append _ _ _ _ (by rw [List.length_replicate]; exact low), List.getD_replicate _ low,
      if_neg (by omega)]
  · rw [topBitMap, List.getD_append_right _ _ _ _ (by rw [List.length_replicate]; omega), List.length_replicate]
    by_cases word : m = 2 ^ 25
    · rw [if_pos word, word, Nat.sub_self]
      rfl
    · rw [if_neg word, List.getD_eq_default _ _ (by rw [List.length_singleton]; omega)]

theorem bitAt_topBitMap (q : Nat) : bitAt topBitMap q = decide (q = 2 ^ 31) := by
  rw [bitAt, getD_topBitMap]
  by_cases word : q / 64 = 2 ^ 25
  · rw [if_pos word, UInt64.toNat_one, show (1 : Nat) = 2 ^ 0 from rfl, Nat.testBit_two_pow]
    exact decide_eq_decide.mpr (by omega)
  · rw [if_neg word, UInt64.toNat_zero, Nat.zero_testBit]
    exact (decide_eq_false fun top => word (by omega)).symm

/-- With `nbits = 2^31 + 1` and bit `2^31` set, `bitmap_first` returns `INT_MIN`:
the position `(i << 6) + bit_first(map[i])` wraps in `int`, and the loop over
`bitmap_next` stops at once without visiting the set bit. -/
theorem bitmapFirst_past_int_max :
    bitAt topBitMap (2 ^ 31) = true ∧ bitmapFirst topBitMap 2147483649 = -2147483648 ∧
      foreachDown topBitMap 2147483650 (bitmapFirst topBitMap 2147483649) = some [] := by
  have clear : ∀ q, (2147483649 : UInt32).toNat ≤ q → bitAt topBitMap q = false := fun q high => by
    simp only [UInt32.reduceToNat] at high
    rw [bitAt_topBitMap]
    exact decide_eq_false (by omega)
  have top : greatestBelow (bitAt topBitMap) (2147483649 : UInt32).toNat = some (2 ^ 31) := by
    refine greatestBelow_eq_some.mpr ⟨by decide, by rw [bitAt_topBitMap]; decide, fun j above inside => ?_⟩
    simp only [UInt32.reduceToNat] at inside
    rw [bitAt_topBitMap]
    exact decide_eq_false (by omega)
  have first : bitmapFirst topBitMap 2147483649 = -2147483648 := by
    rw [bitmapFirst_eq clear (by decide), top]
    decide
  refine ⟨by rw [bitAt_topBitMap]; decide, first, ?_⟩
  rw [first]
  exact foreachDown_of_neg topBitMap (by decide) _

end Xnu.Bits
