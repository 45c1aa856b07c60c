import Xnu.Net.Cksum

namespace Xnu.Cksum

/-! `os_cpu_in_cksum_mbuf` computes the Internet checksum of the bytes it is
given. Every step adds a little-endian load of the next bytes into `partial`;
as a ones' complement sum such a load counts the same as its sixteen-bit words,
so the argument runs on `OnesEq` (see `Xnu.Lib.OnesComplement`). The bounds show
that no `uint64_t` addition wraps: with `m_len` an `int32_t` the flush of the
64-byte loop never fires, and each mbuf leaves `sum` below `2^33`. -/

/-- The ones' complement weight of the `n` bytes at `a`, read from an even address. -/
def spanSum (mem : Nat → UInt8) (a n : Nat) : Nat := byteSum (memBytes mem a n) false

section Machine

theorem toNat_add_of_lt {a b : UInt64} (small : a.toNat + b.toNat < 2 ^ 64) :
    (a + b).toNat = a.toNat + b.toNat := by
  rw [UInt64.toNat_add, Nat.mod_eq_of_lt small]

theorem toNat_shiftRight (a : UInt64) (k : Nat) (small : k < 64) :
    (a >>> (UInt64.ofNat k)).toNat = a.toNat / 2 ^ k := by
  simp [UInt64.toNat_shiftRight, Nat.shiftRight_eq_div_pow, Nat.mod_eq_of_lt small]

theorem toNat_and_low (a : UInt64) (k : Nat) (small : k < 64) :
    (a &&& UInt64.ofNat (2 ^ k - 1)).toNat = a.toNat % 2 ^ k := by
  have fits : 2 ^ k - 1 < 2 ^ 64 := by
    have := Nat.pow_lt_pow_right (show 1 < 2 by decide) small
    omega
  rw [UInt64.toNat_and]
  show a.toNat &&& (2 ^ k - 1) % 2 ^ 64 = _
  rw [Nat.mod_eq_of_lt fits, Nat.and_two_pow_sub_one_eq_mod]

@[simp] theorem toNat_shr16 (a : UInt64) : (a >>> 16).toNat = a.toNat / 2 ^ 16 :=
  toNat_shiftRight a 16 (by decide)
@[simp] theorem toNat_shr32 (a : UInt64) : (a >>> 32).toNat = a.toNat / 2 ^ 32 :=
  toNat_shiftRight a 32 (by decide)
@[simp] theorem toNat_shr48 (a : UInt64) : (a >>> 48).toNat = a.toNat / 2 ^ 48 :=
  toNat_shiftRight a 48 (by decide)
@[simp] theorem toNat_shr56 (a : UInt64) : (a >>> 56).toNat = a.toNat / 2 ^ 56 :=
  toNat_shiftRight a 56 (by decide)
@[simp] theorem toNat_and16 (a : UInt64) : (a &&& 0xffff).toNat = a.toNat % 2 ^ 16 :=
  toNat_and_low a 16 (by decide)
@[simp] theorem toNat_and32 (a : UInt64) : (a &&& 0xffffffff).toNat = a.toNat % 2 ^ 32 :=
  toNat_and_low a 32 (by decide)

theorem toNat_shiftLeft_eight (a : UInt64) : (a <<< 8).toNat = a.toNat * 256 % 2 ^ 64 := by
  simp [UInt64.toNat_shiftLeft, Nat.shiftLeft_eq]

theorem loadLE_lt (read : Nat → UInt8) : ∀ (a n : Nat), loadLE read a n < 256 ^ n
  | _, 0 => by simp [loadLE]
  | a, n + 1 => by
    have rest := loadLE_lt read (a + 1) n
    have byte := (read a).toNat_lt
    rw [loadLE, pow_succ]
    nlinarith

theorem load32_toNat (mem : Nat → UInt8) (p : Nat) : (load32 mem p).toNat = loadLE mem p 4 := by
  have small := loadLE_lt mem p 4
  simp only [load32]
  exact Nat.mod_eq_of_lt (by omega)

theorem load16_toNat (mem : Nat → UInt8) (p : Nat) : (load16 mem p).toNat = loadLE mem p 2 := by
  have small := loadLE_lt mem p 2
  simp only [load16]
  exact Nat.mod_eq_of_lt (by omega)

/-- A value below bit 62 has neither of the two bits the 64-byte loop tests. -/
theorem and_top_two (p : UInt64) (small : p.toNat < 2 ^ 62) : p &&& ((3 : UInt64) <<< 62) = 0 := by
  apply UInt64.toNat_inj.mp
  have mask : ((3 : UInt64) <<< 62).toNat = 3 * 2 ^ 62 := by decide
  rw [UInt64.toNat_and, mask, UInt64.toNat_zero]
  have low : (p.toNat &&& 3 * 2 ^ 62) % 2 ^ 62 = 0 := by
    rw [Nat.and_mod_two_pow, Nat.mod_eq_of_lt small]
    simp
  have below := Nat.lt_of_le_of_lt (Nat.and_le_left : p.toNat &&& 3 * 2 ^ 62 ≤ p.toNat) small
  omega

end Machine

section Spans

variable (mem : Nat → UInt8)

theorem memBytes_add (a m n : Nat) :
    memBytes mem a (m + n) = memBytes mem a m ++ memBytes mem (a + m) n := by
  simp only [memBytes, List.range_add, List.map_append, List.map_map]
  congr 1
  apply List.map_congr_left
  intro i _
  simp only [Function.comp_apply, Nat.add_assoc]

@[simp] theorem memBytes_length (a n : Nat) : (memBytes mem a n).length = n := by
  simp [memBytes]

theorem spanSum_add_even {a m : Nat} (n : Nat) (even : m % 2 = 0) :
    spanSum mem a (m + n) = spanSum mem a m + spanSum mem (a + m) n := by
  simp only [spanSum, memBytes_add, byteSum_append, memBytes_length, even]
  rfl

theorem spanSum_one (a : Nat) : spanSum mem a 1 = (mem a).toNat := by
  simp [spanSum, memBytes, byteSum]

theorem spanSum_zero (a : Nat) : spanSum mem a 0 = 0 := by
  simp [spanSum, memBytes]

theorem load_onesEq (a n : Nat) : OnesEq (loadLE mem a n) (spanSum mem a n) :=
  loadLE_onesEq mem a n

/-- `n` words added to `partial`: no wrap while there is room, and the bytes
they cover are counted once. -/
theorem addWords_spec : ∀ (n data : Nat) (p : UInt64), p.toNat + 2 ^ 32 * n < 2 ^ 64 →
    (addWords mem data n p).toNat ≤ p.toNat + 2 ^ 32 * n ∧
      OnesEq (addWords mem data n p).toNat (p.toNat + spanSum mem data (4 * n))
  | 0, data, p, _ => by simp [addWords, spanSum_zero, OnesEq.refl]
  | n + 1, data, p, room => by
    have word := loadLE_lt mem data 4
    have added : (p + load32 mem data).toNat = p.toNat + loadLE mem data 4 := by
      rw [toNat_add_of_lt (by rw [load32_toNat]; omega), load32_toNat]
    obtain ⟨bound, same⟩ := addWords_spec n (data + 4) (p + load32 mem data) (by rw [added]; omega)
    rw [added] at bound same
    refine ⟨by simp only [addWords]; omega, ?_⟩
    simp only [addWords]
    rw [show 4 * (n + 1) = 4 + 4 * n by ring, spanSum_add_even mem _ (by decide), ← Nat.add_assoc]
    exact same.trans (((OnesEq.refl _).add (load_onesEq mem data 4)).add (OnesEq.refl _))

/-- Adding the next span after a span keeps the count. -/
theorem onesEq_span_step {p x y a m n : Nat} (first : OnesEq x (p + spanSum mem a m))
    (second : OnesEq y (x + spanSum mem (a + m) n)) (even : m % 2 = 0) :
    OnesEq y (p + spanSum mem a (m + n)) := by
  rw [spanSum_add_even mem n even, ← Nat.add_assoc]
  exact second.trans (first.add (OnesEq.refl _))

/-- The 64-byte loop, with room for all its rounds below bit 62, never flushes:
it adds the words of whole 64-byte blocks to `partial` and leaves `sum`. -/
theorem loop64_spec (needsSwap : Bool) (r : Regs) (nonneg : 0 ≤ r.mlen)
    (room : r.partialSum.toNat + 2 ^ 30 * r.mlen.toNat < 2 ^ 62) :
    ∃ k : Nat, (loop64 mem needsSwap r).sum = r.sum ∧
      (loop64 mem needsSwap r).mlen = r.mlen - 64 * k ∧ (loop64 mem needsSwap r).mlen < 64 ∧
      0 ≤ (loop64 mem needsSwap r).mlen ∧ (loop64 mem needsSwap r).data = r.data + 64 * k ∧
      (loop64 mem needsSwap r).partialSum.toNat < 2 ^ 62 ∧
      OnesEq (loop64 mem needsSwap r).partialSum.toNat (r.partialSum.toNat + spanSum mem r.data (64 * k)) := by
  fun_induction loop64 mem needsSwap r with
  | case1 r big p flushed =>
    -- a round adds less than `2^36`, which the room still holds
    have pEq : p = addWords mem r.data 16 r.partialSum := rfl
    obtain ⟨bound, _⟩ := addWords_spec mem 16 r.data r.partialSum (by omega)
    exact absurd (and_top_two p (by rw [pEq]; omega)) flushed
  | case2 r big p kept ih =>
    have pEq : p = addWords mem r.data 16 r.partialSum := rfl
    obtain ⟨bound, same⟩ := addWords_spec mem 16 r.data r.partialSum (by omega)
    rw [← pEq] at bound same
    obtain ⟨k, sum, mlen, below, nonneg', data, small, rest⟩ :=
      ih (by simp only; omega) (by simp only; omega)
    refine ⟨k + 1, sum, by rw [mlen]; simp only; omega, below, nonneg', by rw [data]; simp only; ring,
      small, ?_⟩
    rw [show 64 * (k + 1) = 64 + 64 * k by ring, spanSum_add_even mem _ (by decide), ← Nat.add_assoc]
    exact rest.trans (same.add (OnesEq.refl _))
  | case3 r small =>
    exact ⟨0, rfl, by simp, by omega, nonneg, rfl, by omega, by simp [spanSum_zero, OnesEq.refl]⟩

end Spans

section Tail

variable (mem : Nat → UInt8)

/-- `mlen & 2^i` tests bit `i` of a non-negative `mlen`. -/
theorem land_bit (n i : Nat) : Int.land (n : Int) ((2 ^ i : Nat) : Int) ≠ 0 ↔ n / 2 ^ i % 2 = 1 := by
  show ((n &&& 2 ^ i : Nat) : Int) ≠ 0 ↔ _
  rw [Nat.and_two_pow, Nat.testBit_eq_decide_div_mod_eq]
  cases h : decide (n / 2 ^ i % 2 = 1) <;> simp_all

theorem tailStep_spec (mlen bit : Int) (words : Nat) (r : Regs)
    (room : r.partialSum.toNat + 2 ^ 32 * words < 2 ^ 64) :
    ∃ taken, (Int.land mlen bit ≠ 0 ∧ taken = 4 * words ∨ ¬ Int.land mlen bit ≠ 0 ∧ taken = 0) ∧
      (tailStep mem mlen bit words r).sum = r.sum ∧ (tailStep mem mlen bit words r).mlen = r.mlen ∧
      (tailStep mem mlen bit words r).data = r.data + taken ∧
      (tailStep mem mlen bit words r).partialSum.toNat ≤ r.partialSum.toNat + 2 ^ 32 * words ∧
      OnesEq (tailStep mem mlen bit words r).partialSum.toNat
        (r.partialSum.toNat + spanSum mem r.data taken) := by
  unfold tailStep
  split
  · rename_i set
    obtain ⟨bound, same⟩ := addWords_spec mem words r.data r.partialSum room
    exact ⟨4 * words, Or.inl ⟨set, rfl⟩, rfl, rfl, rfl, bound, same⟩
  · rename_i clear
    exact ⟨0, Or.inr ⟨clear, rfl⟩, rfl, rfl, rfl, by omega, by simp [spanSum_zero, OnesEq.refl]⟩

/-- The four word steps of the tail take bits 5 to 2 of `n`: whole words that
add up to `n - n % 4`. -/
theorem tail_taken {n t5 t4 t3 t2 : Nat} (small : n < 64)
    (c5 : n / 32 % 2 = 1 ∧ t5 = 4 * 8 ∨ ¬n / 32 % 2 = 1 ∧ t5 = 0)
    (c4 : n / 16 % 2 = 1 ∧ t4 = 4 * 4 ∨ ¬n / 16 % 2 = 1 ∧ t4 = 0)
    (c3 : n / 8 % 2 = 1 ∧ t3 = 4 * 2 ∨ ¬n / 8 % 2 = 1 ∧ t3 = 0)
    (c2 : n / 4 % 2 = 1 ∧ t2 = 4 * 1 ∨ ¬n / 4 % 2 = 1 ∧ t2 = 0) :
    t5 + t4 + t3 + t2 = n - n % 4 ∧ t5 % 4 = 0 ∧ t4 % 4 = 0 ∧ t3 % 4 = 0 := by
  omega

/-- The tests after the loop take the even part of the last `mlen < 64` bytes. -/
theorem tail_spec (r : Regs) (n : Nat) (mlen : r.mlen = n) (small : n < 64)
    (room : r.partialSum.toNat < 2 ^ 62) :
    (tail mem r).sum = r.sum ∧ (tail mem r).mlen = r.mlen ∧ (tail mem r).data = r.data + (n - n % 2) ∧
      (tail mem r).partialSum.toNat < 2 ^ 63 ∧
      OnesEq (tail mem r).partialSum.toNat (r.partialSum.toNat + spanSum mem r.data (n - n % 2)) := by
  have bit5 := land_bit n 5
  have bit4 := land_bit n 4
  have bit3 := land_bit n 3
  have bit2 := land_bit n 2
  have bit1 := land_bit n 1
  simp only [Nat.reducePow, Nat.cast_ofNat] at bit5 bit4 bit3 bit2 bit1
  unfold tail
  -- the four word steps, each taking its bit of `n`
  obtain ⟨t5, c5, s1, m1, d1, b1, e1⟩ := tailStep_spec mem r.mlen 32 8 r (by omega)
  set r1 := tailStep mem r.mlen 32 8 r
  obtain ⟨t4, c4, s2, m2, d2, b2, e2⟩ := tailStep_spec mem r.mlen 16 4 r1 (by omega)
  set r2 := tailStep mem r.mlen 16 4 r1
  obtain ⟨t3, c3, s3, m3, d3, b3, e3⟩ := tailStep_spec mem r.mlen 8 2 r2 (by omega)
  set r3 := tailStep mem r.mlen 8 2 r2
  obtain ⟨t2, c2, s4, m4, d4, b4, e4⟩ := tailStep_spec mem r.mlen 4 1 r3 (by omega)
  set r4 := tailStep mem r.mlen 4 1 r3
  rw [mlen, bit5] at c5
  rw [mlen, bit4] at c4
  rw [mlen, bit3] at c3
  rw [mlen, bit2] at c2
  obtain ⟨taken, whole⟩ := tail_taken small c5 c4 c3 c2
  clear c5 c4 c3 c2 bit5 bit4 bit3 bit2
  rw [d1] at e2
  rw [d2, d1, Nat.add_assoc] at e3
  rw [d3, d2, d1, show r.data + t5 + t4 + t3 = r.data + (t5 + t4 + t3) by ring] at e4
  have w2 := onesEq_span_step mem e1 e2 (by omega)
  have w3 := onesEq_span_step mem w2 e3 (by omega)
  have words := onesEq_span_step mem w3 e4 (by omega)
  have data : r4.data = r.data + (t5 + t4 + t3 + t2) := by rw [d4, d3, d2, d1]; ring
  split
  · rename_i twoSet
    rw [mlen, bit1] at twoSet
    have half := loadLE_lt mem r4.data 2
    have added : (r4.partialSum + load16 mem r4.data).toNat = r4.partialSum.toNat + loadLE mem r4.data 2 := by
      rw [toNat_add_of_lt (by rw [load16_toNat]; omega), load16_toNat]
    refine ⟨by simp only; rw [s4, s3, s2, s1], by simp only; rw [m4, m3, m2, m1, mlen],
      by simp only; rw [data]; omega, by simp only; rw [added]; omega, ?_⟩
    simp only
    rw [added, show n - n % 2 = (t5 + t4 + t3 + t2) + 2 by omega]
    have last : OnesEq (r4.partialSum.toNat + loadLE mem r4.data 2)
        (r4.partialSum.toNat + spanSum mem (r.data + (t5 + t4 + t3 + t2)) 2) := by
      rw [← data]
      exact (OnesEq.refl _).add (load_onesEq mem _ 2)
    exact onesEq_span_step mem words last (by omega)
  · rename_i twoClear
    rw [mlen, bit1] at twoClear
    refine ⟨by rw [s4, s3, s2, s1], by rw [m4, m3, m2, m1], by rw [data]; omega, by simp only; omega, ?_⟩
    rw [show n - n % 2 = t5 + t4 + t3 + t2 by omega]
    exact words

theorem trailingByte_spec (r : Regs) (n : Nat) (startedOnOdd : Bool) (mlen : r.mlen = n)
    (room : r.partialSum.toNat < 2 ^ 63) :
    (trailingByte mem r startedOnOdd).1.sum = r.sum ∧ (trailingByte mem r startedOnOdd).1.data = r.data ∧
      (trailingByte mem r startedOnOdd).2 = (startedOnOdd ^^ (n % 2 == 1)) ∧
      OnesEq (trailingByte mem r startedOnOdd).1.partialSum.toNat
        (r.partialSum.toNat + spanSum mem r.data (n % 2)) := by
  have bit0 := land_bit n 0
  simp only [pow_zero, Nat.div_one, Nat.cast_one] at bit0
  unfold trailingByte
  split
  · rename_i set
    rw [mlen, bit0] at set
    have byte := (mem r.data).toNat_lt
    have added : (r.partialSum + (mem r.data).toUInt64).toNat = r.partialSum.toNat + (mem r.data).toNat := by
      rw [toNat_add_of_lt (by simp; omega)]
      simp
    refine ⟨rfl, rfl, by simp [set], ?_⟩
    simp only [added, set, spanSum_one]
    exact OnesEq.refl _
  · rename_i clear
    rw [mlen, bit0] at clear
    refine ⟨rfl, rfl, by simp [show n % 2 = 0 by omega], ?_⟩
    simp only [show n % 2 = 0 by omega, spanSum_zero, Nat.add_zero]
    exact OnesEq.refl _

end Tail

section Body

variable (mem : Nat → UInt8)

theorem alignHalf_spec (r : Regs) (n : Nat) (mlen : r.mlen = n) (long : r.data &&& 2 ≠ 0 → 2 ≤ n)
    (small : r.partialSum.toNat < 2 ^ 17) :
    ∃ t, t ≤ n ∧ t % 2 = 0 ∧ (alignHalf mem r).sum = r.sum ∧ (alignHalf mem r).data = r.data + t ∧
      (alignHalf mem r).mlen = ((n - t : Nat) : Int) ∧ (alignHalf mem r).partialSum.toNat < 2 ^ 18 ∧
      OnesEq (alignHalf mem r).partialSum.toNat (r.partialSum.toNat + spanSum mem r.data t) := by
  unfold alignHalf
  split
  · rename_i two
    have half := loadLE_lt mem r.data 2
    have added : (r.partialSum + load16 mem r.data).toNat = r.partialSum.toNat + loadLE mem r.data 2 := by
      rw [toNat_add_of_lt (by rw [load16_toNat]; omega), load16_toNat]
    have enough := long two
    refine ⟨2, enough, rfl, rfl, rfl, by simp only; rw [mlen]; omega, by simp only; rw [added]; omega, ?_⟩
    simp only [added]
    exact (OnesEq.refl _).add (load_onesEq mem _ 2)
  · exact ⟨0, by omega, rfl, rfl, rfl, by rw [mlen]; simp, by omega, by simp [spanSum_zero, OnesEq.refl]⟩

/-- From the test of `data & 2` to `trailing_bytes:`: at an even address, the
`mlen` bytes are added to `partial` and `sum` is left as it was. -/
theorem cksumWords_spec (needsSwap : Bool) (r : Regs) (startedOnOdd : Bool) (n : Nat)
    (even : r.data % 2 = 0) (mlen : r.mlen = n) (fits : n < 2 ^ 31) (small : r.partialSum.toNat < 2 ^ 17) :
    (cksumWords mem needsSwap r startedOnOdd).1.sum = r.sum ∧
      (cksumWords mem needsSwap r startedOnOdd).2 = (startedOnOdd ^^ (n % 2 == 1)) ∧
      OnesEq (cksumWords mem needsSwap r startedOnOdd).1.partialSum.toNat
        (r.partialSum.toNat + spanSum mem r.data n) := by
  unfold cksumWords
  split
  · -- `goto trailing_bytes` with fewer than two bytes left
    rename_i short
    obtain ⟨sum, _, odd, same⟩ := trailingByte_spec mem r n startedOnOdd mlen (by omega)
    rw [mlen] at short
    refine ⟨sum, odd, ?_⟩
    rw [show n % 2 = n by omega] at same
    exact same
  · rename_i notShort
    obtain ⟨t, below, evenT, sum1, data1, mlen1, small1, same1⟩ :=
      alignHalf_spec mem r n mlen (fun two => by rw [mlen] at notShort; omega) small
    obtain ⟨k, sum2, mlen2, below2, nonneg2, data2, small2, same2⟩ :=
      loop64_spec mem needsSwap (alignHalf mem r) (by rw [mlen1]; omega)
        (by rw [mlen1]; simp only [Int.toNat_natCast]; omega)
    set r2 := loop64 mem needsSwap (alignHalf mem r)
    -- what is left after the loop: `m < 64` bytes
    obtain ⟨m, mEq⟩ : ∃ m : Nat, r2.mlen = m := ⟨r2.mlen.toNat, by omega⟩
    have mValue : m = n - t - 64 * k := by rw [mlen2, mlen1] at mEq; omega
    obtain ⟨sum3, _, data3, small3, same3⟩ := tail_spec mem r2 m mEq (by omega) small2
    obtain ⟨sum4, _, odd4, same4⟩ :=
      trailingByte_spec mem { tail mem r2 with mlen := r2.mlen } m startedOnOdd mEq small3
    refine ⟨by rw [sum4]; simp only; rw [sum3, sum2, sum1], by rw [odd4]; congr 2; omega, ?_⟩
    rw [data3, data2, data1] at same4
    rw [data2, data1] at same3
    rw [data1] at same2
    have w2 := onesEq_span_step mem same1 same2 evenT
    have w3 := onesEq_span_step mem w2 (by rw [Nat.add_assoc] at same3; exact same3) (by omega)
    have w4 := onesEq_span_step mem w3
      (by rw [show r.data + t + 64 * k + (m - m % 2) = r.data + (t + 64 * k + (m - m % 2)) by ring] at same4
          exact same4) (by omega)
    rw [show n = t + 64 * k + (m - m % 2) + m % 2 by omega]
    exact w4

/-- `partial = (partial << 8) + (partial >> 56)` is a rotation: it multiplies the
fold by `256`. -/
theorem swapIf_onesEq (needsSwap : Bool) (p : UInt64) :
    OnesEq (swapIf needsSwap p).toNat (if needsSwap then 256 * p.toNat else p.toNat) := by
  cases needsSwap
  · exact OnesEq.refl _
  · have low := toNat_shiftLeft_eight p
    have fits : (p <<< 8).toNat + (p >>> 56).toNat < 2 ^ 64 := by
      rw [low, toNat_shr56]
      have := p.toNat_lt
      omega
    simp only [swapIf, if_true]
    rw [toNat_add_of_lt fits, low, toNat_shr56]
    exact onesEq_rotate p.toNat

/-- `sum += (partial >> 32) + (partial & 0xffffffff)` and the reduction after it
keep `sum` below `2^33`. -/
theorem accumulate_spec (sum p s : UInt64) (small : sum.toNat < 2 ^ 33)
    (added : s = sum + ((p >>> 32) + (p &&& 0xffffffff))) :
    ((s >>> 32) + (s &&& 0xffffffff)).toNat < 2 ^ 33 ∧
      OnesEq ((s >>> 32) + (s &&& 0xffffffff)).toNat (sum.toNat + p.toNat) := by
  have high := p.toNat_lt
  have halves : ((p >>> 32) + (p &&& 0xffffffff)).toNat = p.toNat / 2 ^ 32 + p.toNat % 2 ^ 32 := by
    rw [toNat_add_of_lt (by simp only [toNat_shr32, toNat_and32]; omega), toNat_shr32, toNat_and32]
  have value : s.toNat = sum.toNat + (p.toNat / 2 ^ 32 + p.toNat % 2 ^ 32) := by
    rw [added, toNat_add_of_lt (by rw [halves]; omega), halves]
  have reduced := onesEq_split s.toNat 2
  simp only [Nat.reduceMul] at reduced
  rw [toNat_add_of_lt (by simp only [toNat_shr32, toNat_and32]; omega), toNat_shr32, toNat_and32]
  refine ⟨by omega, reduced.trans ?_⟩
  rw [value]
  exact (OnesEq.refl _).add (onesEq_split p.toNat 2)

/-- Swapping exactly when the bytes were read in the other half of their words
puts each in the half its position in the range gives it. -/
theorem swapIf_parity (start target : Bool) (p : UInt64) (bytes : List UInt8)
    (same : OnesEq p.toNat (byteSum bytes start)) :
    OnesEq (swapIf (start ^^ target) p).toNat (byteSum bytes target) := by
  refine (swapIf_onesEq _ p).trans ?_
  cases start <;> cases target
  · exact same
  · exact (same.mul_left 256).trans (byteSum_flip bytes false)
  · exact (same.mul_left 256).trans (byteSum_flip bytes true)
  · exact same

theorem memBytes_succ (a n : Nat) : memBytes mem a (n + 1) = mem a :: memBytes mem (a + 1) n := by
  rw [Nat.add_comm, memBytes_add]
  simp [memBytes]

/-- One mbuf: its first `min mlen len` bytes are added to `sum`, each in the
half of a word its position in the whole range puts it. -/
theorem cksumBody_spec (data : Nat) (mlen len : Int) (sum : UInt64) (startedOnOdd : Bool)
    (pos : 0 < mlen) (fits : mlen < 2 ^ 31) (lenPos : 0 ≤ len) (aligned : 0 < len ∨ data % 2 = 0)
    (small : sum.toNat < 2 ^ 33) :
    (cksumBody mem data mlen len sum startedOnOdd).2.2 = len - min mlen len ∧
      (cksumBody mem data mlen len sum startedOnOdd).2.1 =
        (startedOnOdd ^^ ((min mlen len).toNat % 2 == 1)) ∧
      (cksumBody mem data mlen len sum startedOnOdd).1.toNat < 2 ^ 33 ∧
      OnesEq (cksumBody mem data mlen len sum startedOnOdd).1.toNat
        (sum.toNat + byteSum (memBytes mem data (min mlen len).toNat) startedOnOdd) := by
  obtain ⟨L, lEq⟩ : ∃ L : Nat, min mlen len = L := ⟨(min mlen len).toNat, by omega⟩
  have clamp : (if mlen > len then len else mlen) = L := by rw [← lEq]; split <;> omega
  rw [lEq, Int.toNat_natCast]
  unfold cksumBody
  rw [if_neg (by omega)]
  simp only [clamp]
  by_cases odd : data % 2 = 1
  · -- the first byte sits at an odd address and goes in the high half
    -- an odd address is only reached with bytes left to sum
    obtain ⟨L', rfl⟩ : ∃ L', L = L' + 1 := ⟨L - 1, by omega⟩
    have byte := (mem data).toNat_lt
    have high : ((mem data).toUInt64 <<< 8).toNat = 256 * (mem data).toNat := by
      rw [toNat_shiftLeft_eight]; simp; omega
    simp only [odd, if_true]
    set w := cksumWords mem (!startedOnOdd)
      ⟨sum, (mem data).toUInt64 <<< 8, data + 1, ↑(L' + 1) - 1⟩ (!startedOnOdd) with wEq
    obtain ⟨sum1, parity1, same1⟩ := cksumWords_spec mem (!startedOnOdd)
      ⟨sum, (mem data).toUInt64 <<< 8, data + 1, ↑(L' + 1) - 1⟩ (!startedOnOdd) L' (by simp; omega)
      (by simp) (by omega) (by simp only [high]; omega)
    rw [← wEq] at sum1 parity1 same1
    have reads : OnesEq w.1.partialSum.toNat (byteSum (memBytes mem data (L' + 1)) true) := by
      rw [memBytes_succ, byteSum]
      simpa only [high, spanSum] using same1
    have swapped := swapIf_parity true startedOnOdd _ _ reads
    rw [Bool.true_xor] at swapped
    rw [show w.1.sum = sum from sum1]
    obtain ⟨bound, total⟩ := accumulate_spec sum (swapIf (!startedOnOdd) w.1.partialSum) _ small rfl
    refine ⟨trivial, ?_, bound, total.trans ((OnesEq.refl _).add swapped)⟩
    rw [parity1]
    cases startedOnOdd <;> rcases Nat.mod_two_eq_zero_or_one L' with parity | parity <;>
      simp [Nat.add_mod, parity]
  · have even : data % 2 = 0 := by omega
    simp only [odd, if_false]
    set w := cksumWords mem startedOnOdd ⟨sum, 0, data, ↑L⟩ startedOnOdd with wEq
    obtain ⟨sum1, parity1, same1⟩ := cksumWords_spec mem startedOnOdd ⟨sum, 0, data, ↑L⟩ startedOnOdd L
      even rfl (by omega) (by simp)
    rw [← wEq] at sum1 parity1 same1
    have reads : OnesEq w.1.partialSum.toNat (byteSum (memBytes mem data L) false) := by
      simpa only [UInt64.toNat_zero, Nat.zero_add, spanSum] using same1
    have swapped := swapIf_parity false startedOnOdd _ _ reads
    rw [Bool.false_xor] at swapped
    rw [show w.1.sum = sum from sum1]
    obtain ⟨bound, total⟩ := accumulate_spec sum (swapIf startedOnOdd w.1.partialSum) _ small rfl
    exact ⟨trivial, parity1, bound, total.trans ((OnesEq.refl _).add swapped)⟩

end Body

end Xnu.Cksum
