import Xnu.Net.CksumCorrect

namespace Xnu.Cksum

/-! The whole of `os_cpu_in_cksum_mbuf`: the walk to byte `off`, the loop over
the chain, and the final fold; then `os_cpu_in_cksum` and the test's reference
`dumb_in_cksum`. The mbuf the first loop stops in is entered at
`post_initial_offset:` with its bytes from `off` on, which is the body of the
second loop run on an mbuf that starts there; `cksumChain_some` covers both. -/

/-- The bytes of a chain, one mbuf after another. -/
def chainBytes (mem : Nat → UInt8) : List Mbuf → List UInt8
  | [] => []
  | m :: rest => memBytes mem m.mData m.mLen.toInt.toNat ++ chainBytes mem rest

section Folds

/-- Folding a 64-bit value at bit 32 never overflows and keeps its sum. -/
theorem fold32_spec (x : UInt64) :
    ((x >>> 32) + (x &&& 0xffffffff)).toNat = x.toNat / 2 ^ 32 + x.toNat % 2 ^ 32 ∧
      OnesEq ((x >>> 32) + (x &&& 0xffffffff)).toNat x.toNat := by
  have bound := x.toNat_lt
  have sum : ((x >>> 32) + (x &&& 0xffffffff)).toNat = x.toNat / 2 ^ 32 + x.toNat % 2 ^ 32 := by
    rw [toNat_add_of_lt (by simp only [toNat_shr32, toNat_and32]; omega), toNat_shr32, toNat_and32]
  exact ⟨sum, sum ▸ onesEq_split x.toNat 2⟩

theorem fold16_spec (x : UInt64) :
    ((x >>> 16) + (x &&& 0xffff)).toNat = x.toNat / 2 ^ 16 + x.toNat % 2 ^ 16 ∧
      OnesEq ((x >>> 16) + (x &&& 0xffff)).toNat x.toNat := by
  have bound := x.toNat_lt
  have sum : ((x >>> 16) + (x &&& 0xffff)).toNat = x.toNat / 2 ^ 16 + x.toNat % 2 ^ 16 := by
    rw [toNat_add_of_lt (by simp only [toNat_shr16, toNat_and16]; omega), toNat_shr16, toNat_and16]
  exact ⟨sum, sum ▸ onesEq_split x.toNat 1⟩

theorem toNat_and16_32 (x : UInt32) : (x &&& 0xffff).toNat = x.toNat % 2 ^ 16 := by
  rw [UInt32.toNat_and]
  exact Nat.and_two_pow_sub_one_eq_mod x.toNat 16

/-- The same fold on the 32-bit `final_acc`. -/
theorem fold16_spec32 (x : UInt32) :
    ((x >>> 16) + (x &&& 0xffff)).toNat = x.toNat / 2 ^ 16 + x.toNat % 2 ^ 16 ∧
      OnesEq ((x >>> 16) + (x &&& 0xffff)).toNat x.toNat := by
  have bound := x.toNat_lt
  have high : (x >>> 16).toNat = x.toNat / 2 ^ 16 := by
    simp [UInt32.toNat_shiftRight, Nat.shiftRight_eq_div_pow]
  have sum : ((x >>> 16) + (x &&& 0xffff)).toNat = x.toNat / 2 ^ 16 + x.toNat % 2 ^ 16 := by
    rw [UInt32.toNat_add, high, toNat_and16_32]
    exact Nat.mod_eq_of_lt (by omega)
  exact ⟨sum, sum ▸ onesEq_split x.toNat 1⟩

/-- The four sixteen-bit digits of a number have its ones' complement sum. -/
theorem onesEq_digits (x : Nat) :
    OnesEq (x / 2 ^ 48 + x / 2 ^ 32 % 2 ^ 16 + x / 2 ^ 16 % 2 ^ 16 + x % 2 ^ 16) x := by
  have top : x / 2 ^ 32 / 2 ^ 16 = x / 2 ^ 48 := by rw [Nat.div_div_eq_div_mul, ← pow_add]
  have middle : x / 2 ^ 16 / 2 ^ 16 = x / 2 ^ 32 := by rw [Nat.div_div_eq_div_mul, ← pow_add]
  refine ⟨by omega, ?_⟩
  constructor <;> intro zero <;> omega

/-- The fold at the end of `os_cpu_in_cksum_mbuf`, for a sum below `2^33`. -/
theorem finalFold_spec (sum : UInt64) (small : sum.toNat < 2 ^ 33) :
    (finalFold sum).toNat = endAroundFold sum.toNat := by
  unfold finalFold
  dsimp only
  have high := toNat_shr48 sum
  have upper := toNat_and16 (sum >>> 32)
  have lower := toNat_and16 (sum >>> 16)
  have low := toNat_and16 sum
  rw [toNat_shr32] at upper
  rw [toNat_shr16] at lower
  have first : ((sum >>> 48) + ((sum >>> 32) &&& (0xffff : UInt64))).toNat =
      sum.toNat / 2 ^ 48 + sum.toNat / 2 ^ 32 % 2 ^ 16 := by
    rw [toNat_add_of_lt (by omega), high, upper]
  have second : ((sum >>> 48) + ((sum >>> 32) &&& (0xffff : UInt64)) +
      ((sum >>> 16) &&& (0xffff : UInt64))).toNat =
      sum.toNat / 2 ^ 48 + sum.toNat / 2 ^ 32 % 2 ^ 16 + sum.toNat / 2 ^ 16 % 2 ^ 16 := by
    rw [toNat_add_of_lt (by omega), first, lower]
  have digits : ((sum >>> 48) + ((sum >>> 32) &&& (0xffff : UInt64)) +
      ((sum >>> 16) &&& (0xffff : UInt64)) + (sum &&& (0xffff : UInt64))).toUInt32.toNat =
      sum.toNat / 2 ^ 48 + sum.toNat / 2 ^ 32 % 2 ^ 16 + sum.toNat / 2 ^ 16 % 2 ^ 16 +
        sum.toNat % 2 ^ 16 := by
    rw [UInt64.toNat_toUInt32, toNat_add_of_lt (by omega), second, low]
    omega
  generalize ((sum >>> 48) + ((sum >>> 32) &&& (0xffff : UInt64)) +
    ((sum >>> 16) &&& (0xffff : UInt64)) + (sum &&& (0xffff : UInt64))).toUInt32 = acc at digits ⊢
  obtain ⟨once, onceSame⟩ := fold16_spec32 acc
  generalize (acc >>> 16) + (acc &&& 0xffff) = acc1 at once onceSame ⊢
  obtain ⟨twice, twiceSame⟩ := fold16_spec32 acc1
  generalize (acc1 >>> 16) + (acc1 &&& 0xffff) = acc2 at twice twiceSame ⊢
  -- two folds of at most eighteen bits leave sixteen
  have fits : acc2.toNat ≤ 0xffff := by omega
  have accSame : OnesEq acc.toNat sum.toNat := by
    rw [digits]
    exact onesEq_digits sum.toNat
  rw [toNat_and16_32, Nat.mod_eq_of_lt (by omega)]
  exact eq_endAroundFold fits (twiceSame.trans (onceSame.trans accSame))

/-- The fast path's fold, for every 64-bit sum. -/
theorem fastFold_spec (sum : UInt64) : (fastFold sum).toNat = endAroundFold sum.toNat := by
  unfold fastFold
  dsimp only
  have bound := sum.toNat_lt
  obtain ⟨first, firstSame⟩ := fold32_spec sum
  generalize (sum >>> 32) + (sum &&& 0xffffffff) = s1 at first firstSame ⊢
  obtain ⟨second, secondSame⟩ := fold16_spec s1
  generalize (s1 >>> 16) + (s1 &&& 0xffff) = s2 at second secondSame ⊢
  obtain ⟨third, thirdSame⟩ := fold16_spec s2
  generalize (s2 >>> 16) + (s2 &&& 0xffff) = s3 at third thirdSame ⊢
  obtain ⟨fourth, fourthSame⟩ := fold16_spec s3
  generalize (s3 >>> 16) + (s3 &&& 0xffff) = s4 at fourth fourthSame ⊢
  -- 33, then 18, then 17 bits, and the last fold leaves sixteen
  have fits : s4.toNat ≤ 0xffff := by omega
  have masked : ((s4 &&& 0xffff).toUInt32).toNat = s4.toNat := by
    rw [UInt64.toNat_toUInt32, toNat_and16]
    omega
  rw [masked]
  exact eq_endAroundFold fits (fourthSame.trans (thirdSame.trans (secondSame.trans firstSame)))

end Folds

section Chain

variable (mem : Nat → UInt8)

theorem memBytes_take (a n k : Nat) : (memBytes mem a n).take k = memBytes mem a (min k n) := by
  simp only [memBytes, ← List.map_take, List.take_range]

theorem memBytes_drop (a n k : Nat) : (memBytes mem a n).drop k = memBytes mem (a + k) (n - k) := by
  rcases Nat.le_total k n with within | beyond
  · obtain ⟨rest, rfl⟩ := Nat.exists_eq_add_of_le within
    rw [memBytes_add, List.drop_left' (memBytes_length mem a k), Nat.add_sub_cancel_left]
  · rw [List.drop_eq_nil_of_le (by simpa using beyond), Nat.sub_eq_zero_of_le beyond]
    simp [memBytes]

theorem chainBytes_length_cons (m : Mbuf) (rest : List Mbuf) :
    (chainBytes mem (m :: rest)).length = m.mLen.toInt.toNat + (chainBytes mem rest).length := by
  simp only [chainBytes, List.length_append, memBytes_length]

/-- How much of `len` an mbuf leaves; an empty one is skipped. -/
theorem cksumBody_len (data : Nat) (mlen len : Int) (sum : UInt64) (startedOnOdd : Bool) :
    (cksumBody mem data mlen len sum startedOnOdd).2.2 =
      if mlen = 0 then len else len - min mlen len := by
  unfold cksumBody
  split
  · rfl
  · dsimp only
    split <;> omega

theorem cksumChain_cons (len : Int) (sum : UInt64) (startedOnOdd : Bool) (m : Mbuf)
    (rest : List Mbuf) (pos : 0 < len) :
    cksumChain mem len sum startedOnOdd (m :: rest) =
      cksumChain mem (cksumBody mem m.mData m.mLen.toInt len sum startedOnOdd).2.2
        (cksumBody mem m.mData m.mLen.toInt len sum startedOnOdd).1
        (cksumBody mem m.mData m.mLen.toInt len sum startedOnOdd).2.1 rest := by
  rw [cksumChain, if_pos pos]

/-- The loop over the chain, from any state it can be in: with enough bytes it
sums the next `len` of them, each in its half of a word, and keeps `sum` below
`2^33`. -/
theorem cksumChain_some : ∀ (ms : List Mbuf) (len : Int) (sum : UInt64) (startedOnOdd : Bool),
    (∀ m ∈ ms, 0 ≤ m.mLen.toInt) → 0 ≤ len → len ≤ (chainBytes mem ms).length →
    sum.toNat < 2 ^ 33 →
    ∃ s, cksumChain mem len sum startedOnOdd ms = some s ∧ s.toNat < 2 ^ 33 ∧
      OnesEq s.toNat (sum.toNat + byteSum ((chainBytes mem ms).take len.toNat) startedOnOdd)
  | [], len, sum, startedOnOdd, _, nonneg, within, small => by
    have zero : len = 0 := by simp only [chainBytes, List.length_nil] at within; omega
    subst zero
    exact ⟨sum, rfl, small, by simp [OnesEq.refl]⟩
  | m :: rest, len, sum, startedOnOdd, lens, nonneg, within, small => by
    rcases Int.lt_or_eq_of_le nonneg with pos | zero
    · rw [cksumChain_cons mem len sum startedOnOdd m rest pos]
      have restLens : ∀ m' ∈ rest, 0 ≤ m'.mLen.toInt :=
        fun m' member => lens m' (List.mem_cons_of_mem m member)
      have mLen := lens m List.mem_cons_self
      have total := chainBytes_length_cons mem m rest
      by_cases empty : m.mLen.toInt = 0
      · -- `if (mlen == 0) continue;`
        have skipped : cksumBody mem m.mData m.mLen.toInt len sum startedOnOdd =
            (sum, startedOnOdd, len) := by
          rw [cksumBody, if_pos empty]
        have bytes : chainBytes mem (m :: rest) = chainBytes mem rest := by
          simp [chainBytes, empty, memBytes]
        rw [skipped]
        rw [bytes] at within ⊢
        exact cksumChain_some rest len sum startedOnOdd restLens nonneg within small
      · obtain ⟨remaining, parity, bound, same⟩ := cksumBody_spec mem m.mData m.mLen.toInt len sum
          startedOnOdd (by omega) (Int32.toInt_lt m.mLen) nonneg (Or.inl pos) small
        generalize cksumBody mem m.mData m.mLen.toInt len sum startedOnOdd = r at remaining parity bound same ⊢
        obtain ⟨s, chain, sBound, sSame⟩ := cksumChain_some rest r.2.2 r.1 r.2.1 restLens
          (by rw [remaining]; omega) (by rw [remaining]; omega) bound
        refine ⟨s, chain, sBound, ?_⟩
        -- this mbuf's bytes, then the rest's in the parity this mbuf leaves
        have taken : min len.toNat m.mLen.toInt.toNat = (min m.mLen.toInt len).toNat := by omega
        have left : len.toNat - m.mLen.toInt.toNat = (len - min m.mLen.toInt len).toNat := by omega
        rw [remaining, parity] at sSame
        rw [chainBytes, List.take_append, memBytes_take, memBytes_length, taken, left,
          byteSum_append, memBytes_length, ← Nat.add_assoc]
        exact sSame.trans (same.add (OnesEq.refl _))
    · subst zero
      refine ⟨sum, by simp [cksumChain], small, by simp [OnesEq.refl]⟩

/-- Too few bytes: the loop runs off the chain and reports `out of data`. -/
theorem cksumChain_none : ∀ (ms : List Mbuf) (len : Int) (sum : UInt64) (startedOnOdd : Bool),
    (∀ m ∈ ms, 0 ≤ m.mLen.toInt) → (chainBytes mem ms).length < len →
    cksumChain mem len sum startedOnOdd ms = none
  | [], len, sum, startedOnOdd, _, short => by
    have pos : 0 < len := by simp only [chainBytes, List.length_nil] at short; omega
    rw [cksumChain, if_pos pos]
  | m :: rest, len, sum, startedOnOdd, lens, short => by
    have mLen := lens m List.mem_cons_self
    have total := chainBytes_length_cons mem m rest
    rw [cksumChain_cons mem len sum startedOnOdd m rest (by omega)]
    apply cksumChain_none rest _ _ _ fun m' member => lens m' (List.mem_cons_of_mem m member)
    rw [cksumBody_len]
    split <;> omega

/-- With bytes to sum, the first loop stops in the mbuf holding byte `off`, and
what it hands on is the rest of the chain from there. -/
theorem cksumSkip_found (len : Int) (lenPos : len ≠ 0) : ∀ (ms : List Mbuf) (off : Int),
    (∀ m ∈ ms, 0 ≤ m.mLen.toInt) → 0 ≤ off → off < (chainBytes mem ms).length →
    ∃ data mlen rest, cksumSkip len ms off = .found data mlen rest ∧ 0 < mlen ∧ mlen < 2 ^ 31 ∧
      rest <:+ ms ∧
      (chainBytes mem ms).drop off.toNat = memBytes mem data mlen.toNat ++ chainBytes mem rest
  | [], off, _, nonneg, within => by
    simp only [chainBytes, List.length_nil] at within
    omega
  | m :: rest, off, lens, nonneg, within => by
    have mLen := lens m List.mem_cons_self
    have total := chainBytes_length_cons mem m rest
    by_cases here : m.mLen.toInt > off
    · have fits := Int32.toInt_lt m.mLen
      refine ⟨m.mData + off.toNat, m.mLen.toInt - off, rest, by rw [cksumSkip, if_pos here],
        by omega, by omega, List.suffix_cons m rest, ?_⟩
      rw [chainBytes, List.drop_append_of_le_length (by rw [memBytes_length]; omega), memBytes_drop]
      congr 2
      omega
    · have further : cksumSkip len (m :: rest) off = cksumSkip len rest (off - m.mLen.toInt) := by
        rw [cksumSkip, if_neg here, if_neg lenPos]
      obtain ⟨data, mlen, rest', found, pos, fits, suffix, bytes⟩ :=
        cksumSkip_found len lenPos rest (off - m.mLen.toInt)
          (fun m' member => lens m' (List.mem_cons_of_mem m member)) (by omega) (by omega)
      refine ⟨data, mlen, rest', by rw [further, found], pos, fits,
        suffix.trans (List.suffix_cons m rest), ?_⟩
      rw [chainBytes, List.drop_append, List.drop_eq_nil_of_le (by rw [memBytes_length]; omega),
        List.nil_append, memBytes_length, ← bytes]
      congr 1
      omega

/-- With bytes to sum and `off` past the end, the first loop runs off the chain. -/
theorem cksumSkip_outOfData (len : Int) (lenPos : len ≠ 0) : ∀ (ms : List Mbuf) (off : Int),
    (∀ m ∈ ms, 0 ≤ m.mLen.toInt) → (chainBytes mem ms).length ≤ off →
    cksumSkip len ms off = .outOfData
  | [], off, _, _ => rfl
  | m :: rest, off, lens, beyond => by
    have mLen := lens m List.mem_cons_self
    have total := chainBytes_length_cons mem m rest
    rw [cksumSkip, if_neg (by omega), if_neg lenPos]
    exact cksumSkip_outOfData len lenPos rest _
      (fun m' member => lens m' (List.mem_cons_of_mem m member)) (by omega)

end Chain

section Entry

variable (mem : Nat → UInt8)

theorem toInt_ofInt_of_lt (x : Int) (low : -2 ^ 31 ≤ x) (high : x < 2 ^ 31) :
    (Int32.ofInt x).toInt = x := by
  rw [Int32.toInt_ofInt]
  exact Int.bmod_eq_of_le (by simp [Int32.size]; omega) (by simp [Int32.size]; omega)

theorem toNat_toUInt64_lt (x : UInt32) : x.toUInt64.toNat < 2 ^ 33 := by
  have := x.toNat_lt
  rw [UInt32.toNat_toUInt64]
  omega

theorem toInt_toInt32 (n : UInt32) (small : n.toNat < 2 ^ 31) : n.toInt32.toInt = n.toNat := by
  rw [UInt32.toInt32, Int32.toInt, BitVec.toInt_eq_toNat_cond]
  show (if 2 * n.toNat < 2 ^ 32 then (n.toNat : Int) else n.toNat - ((2 ^ 32 : Nat) : Int)) = n.toNat
  rw [if_pos (by omega)]

/-- `os_cpu_in_cksum_mbuf` with bytes to sum: the checksum of the `len` bytes
from `off` when the chain holds them, `(uint32_t)-1` when it is too short. -/
theorem osCpuInCksumMbuf_spec (ms : List Mbuf) (len off : Int32) (initialSum : UInt32)
    (lens : ∀ m ∈ ms, 0 ≤ m.mLen.toInt) (offPos : 0 ≤ off.toInt) (lenPos : 0 < len.toInt) :
    (osCpuInCksumMbuf mem ms len off initialSum).toNat =
      if off.toInt + len.toInt ≤ (chainBytes mem ms).length then
        inCksum initialSum.toNat (((chainBytes mem ms).drop off.toInt.toNat).take len.toInt.toNat)
      else 0xFFFFFFFF := by
  have initial := toNat_toUInt64_lt initialSum
  unfold osCpuInCksumMbuf
  by_cases within : off.toInt < (chainBytes mem ms).length
  · obtain ⟨data, mlen, rest, found, pos, fits, suffix, bytes⟩ :=
      cksumSkip_found mem len.toInt (by omega) ms off.toInt lens offPos within
    -- `post_initial_offset:` runs the loop's body on the bytes from `off` on, as
    -- on an mbuf that starts there
    set entry : Mbuf := ⟨data, Int32.ofInt mlen⟩
    have entryLen : entry.mLen.toInt = mlen := toInt_ofInt_of_lt mlen (by omega) fits
    have restLens : ∀ m ∈ rest, 0 ≤ m.mLen.toInt := fun m member => lens m (suffix.subset member)
    have entryLens : ∀ m ∈ entry :: rest, 0 ≤ m.mLen.toInt := by
      intro m member
      rcases List.mem_cons.mp member with rfl | later
      · omega
      · exact restLens m later
    have entered : cksumChain mem len.toInt initialSum.toUInt64 false (entry :: rest) =
        cksumChain mem (cksumBody mem data mlen len.toInt initialSum.toUInt64 false).2.2
          (cksumBody mem data mlen len.toInt initialSum.toUInt64 false).1
          (cksumBody mem data mlen len.toInt initialSum.toUInt64 false).2.1 rest := by
      rw [cksumChain_cons mem _ _ _ _ _ lenPos, entryLen]
    have entryBytes : chainBytes mem (entry :: rest) =
        (chainBytes mem ms).drop off.toInt.toNat := by
      rw [bytes, chainBytes, entryLen]
    simp only [found]
    rw [← entered]
    by_cases fitsAll : off.toInt + len.toInt ≤ (chainBytes mem ms).length
    · have enough : len.toInt ≤ (chainBytes mem (entry :: rest)).length := by
        rw [entryBytes, List.length_drop]
        omega
      obtain ⟨s, chain, bound, same⟩ :=
        cksumChain_some mem (entry :: rest) len.toInt _ false entryLens (by omega) enough initial
      rw [chain, if_pos fitsAll]
      dsimp only
      rw [finalFold_spec s bound, inCksum, endAroundFold_eq_iff, wordSum_eq_byteSum, ← entryBytes,
        ← UInt32.toNat_toUInt64]
      exact same
    · rw [cksumChain_none mem (entry :: rest) len.toInt _ false entryLens (by
        rw [entryBytes, List.length_drop]
        omega), if_neg fitsAll]
      rfl
  · rw [cksumSkip_outOfData mem len.toInt (by omega) ms off.toInt lens (by omega), if_neg (by omega)]
    rfl

/-- The general path of `os_cpu_in_cksum`: a single mbuf over the buffer,
with `off = 0`. -/
theorem osCpuInCksumMbuf_buffer (data : Nat) (len initialSum : UInt32) (fits : len.toNat < 2 ^ 31) :
    (osCpuInCksumMbuf mem [⟨data, len.toInt32⟩] len.toInt32 0 initialSum).toNat =
      inCksum initialSum.toNat (memBytes mem data len.toNat) := by
  have lenInt := toInt_toInt32 len fits
  have offInt : (0 : Int32).toInt = 0 := by decide
  by_cases empty : len.toNat = 0
  · -- an empty buffer: the first loop breaks at once
    unfold osCpuInCksumMbuf
    rw [cksumSkip, offInt, lenInt, empty]
    simp only [Nat.cast_zero, gt_iff_lt, lt_self_iff_false, if_false, if_true]
    rw [finalFold_spec _ (toNat_toUInt64_lt initialSum), inCksum, UInt32.toNat_toUInt64]
    simp [memBytes, wordSum]
  · rw [osCpuInCksumMbuf_spec mem [⟨data, len.toInt32⟩] len.toInt32 0 initialSum
      (by simp [lenInt]) (by rw [offInt]) (by rw [lenInt]; omega)]
    have bytes : chainBytes mem [⟨data, len.toInt32⟩] = memBytes mem data len.toNat := by
      simp [chainBytes, lenInt]
    rw [if_pos (by rw [bytes, offInt, lenInt, memBytes_length]; omega), bytes, offInt, lenInt,
      Int.toNat_natCast, Int.toNat_zero, List.drop_zero,
      List.take_of_length_le (by rw [memBytes_length])]

/-- `os_cpu_in_cksum` on a buffer of fewer than `2^31` bytes, by either path. -/
theorem osCpuInCksum_spec (data : Nat) (len initialSum : UInt32) (fits : len.toNat < 2 ^ 31) :
    (osCpuInCksum mem data len initialSum).toNat =
      inCksum initialSum.toNat (memBytes mem data len.toNat) := by
  unfold osCpuInCksum
  split
  · -- the fast path: `len / 4` words, five of them for an IPv4 header
    rename_i fast
    obtain ⟨-, short, whole⟩ := fast
    have quarter : len.toNat % 4 = 0 := by
      have masked := congrArg UInt32.toNat whole
      rw [UInt32.toNat_and] at masked
      rw [← Nat.and_two_pow_sub_one_eq_mod len.toNat 2]
      exact masked
    have count : (if len = 20 then fastFold (addWords mem data 5 initialSum.toUInt64)
        else fastFold (addWords mem data (len.toNat / 4) initialSum.toUInt64)) =
        fastFold (addWords mem data (len.toNat / 4) initialSum.toUInt64) := by
      split
      · rename_i twenty
        subst twenty
        rfl
      · rfl
    have short' : len.toNat ≤ 64 := UInt32.le_iff_toNat_le.mp short
    have initial := toNat_toUInt64_lt initialSum
    obtain ⟨-, same⟩ := addWords_spec mem (len.toNat / 4) data initialSum.toUInt64 (by omega)
    rw [count, fastFold_spec, inCksum, endAroundFold_eq_iff, wordSum_eq_byteSum]
    rw [UInt32.toNat_toUInt64, show 4 * (len.toNat / 4) = len.toNat by omega] at same
    exact same
  · exact osCpuInCksumMbuf_buffer mem data len initialSum fits

/-- The fast path returns what the general path would. -/
theorem osCpuInCksum_eq_general (data : Nat) (len initialSum : UInt32) (fits : len.toNat < 2 ^ 31) :
    osCpuInCksum mem data len initialSum =
      osCpuInCksumMbuf mem [⟨data, len.toInt32⟩] len.toInt32 0 initialSum := by
  apply UInt32.toNat_inj.mp
  rw [osCpuInCksum_spec mem data len initialSum fits, osCpuInCksumMbuf_buffer mem data len initialSum fits]

/-- Calls chained through `initial_sum`, every segment but the last of even
length, give the checksum of all the segments' bytes in order. -/
theorem osCpuInCksum_foldl : ∀ (segments : List (Nat × UInt32)) (initialSum : UInt32),
    segments ≠ [] → (∀ seg ∈ segments, seg.2.toNat < 2 ^ 31) →
    (∀ seg ∈ segments.dropLast, seg.2.toNat % 2 = 0) →
    (segments.foldl (fun s seg => osCpuInCksum mem seg.1 seg.2 s) initialSum).toNat =
      inCksum initialSum.toNat (segments.flatMap fun seg => memBytes mem seg.1 seg.2.toNat)
  | [seg], initialSum, _, fits, _ => by
    simp [osCpuInCksum_spec mem _ _ _ (fits seg List.mem_cons_self)]
  | seg :: next :: rest, initialSum, _, fits, even => by
    have first := osCpuInCksum_spec mem seg.1 seg.2 initialSum (fits seg List.mem_cons_self)
    have segEven : seg.2.toNat % 2 = 0 := even seg (by simp)
    rw [List.flatMap_cons, List.foldl_cons, osCpuInCksum_foldl (next :: rest) _
      (List.cons_ne_nil next rest) (fun seg' member => fits seg' (List.mem_cons_of_mem seg member))
      (fun seg' member => even seg' (by
        rw [List.dropLast_cons_cons]
        exact List.mem_cons_of_mem seg member)),
      first, inCksum_append _ (by rw [memBytes_length]; exact segEven)]

end Entry

section Reference

/-- `foldCarries` ends in sixteen bits with the same ones' complement sum. -/
theorem foldCarries_spec (p : Nat) : foldCarries p ≤ 0xffff ∧ OnesEq (foldCarries p) p := by
  fun_induction foldCarries p with
  | case1 p carry ih =>
    have halves : (p &&& 0xffff) + (p >>> 16) = p / 2 ^ 16 + p % 2 ^ 16 := by
      rw [Nat.and_two_pow_sub_one_eq_mod p 16, Nat.shiftRight_eq_div_pow]
      omega
    exact ⟨ih.1, ih.2.trans (halves ▸ onesEq_split p 1)⟩
  | case2 p done =>
    have high : p / 2 ^ 16 = 0 := by
      rw [← Nat.shiftRight_eq_div_pow]
      simpa using done
    exact ⟨by omega, OnesEq.refl p⟩

/-- The test's reference loop computes the checksum before its complement. -/
theorem dumbInCksumLoop_spec : ∀ (bytes : List UInt8) (p : Nat), p ≤ 0xffff →
    dumbInCksumLoop bytes p = endAroundFold (p + wordSum bytes)
  | b0 :: b1 :: rest, p, _ => by
    obtain ⟨fits, same⟩ := foldCarries_spec (p + (b0.toNat ||| b1.toNat <<< 8))
    have word : b0.toNat ||| b1.toNat <<< 8 = b0.toNat + 256 * b1.toNat := by
      rw [Nat.lor_comm, ← Nat.shiftLeft_add_eq_or_of_lt b0.toNat_lt b1.toNat, Nat.shiftLeft_eq]
      omega
    rw [dumbInCksumLoop, dumbInCksumLoop_spec rest _ fits, endAroundFold_eq_iff, wordSum,
      ← Nat.add_assoc, ← word]
    exact same.add (OnesEq.refl _)
  | [b0], p, _ => by
    obtain ⟨fits, same⟩ := foldCarries_spec (p + b0.toNat)
    exact eq_endAroundFold fits same
  | [], p, small => by
    rw [dumbInCksumLoop, wordSum, Nat.add_zero]
    exact eq_endAroundFold small (OnesEq.refl p)

end Reference

/-- The checksum routines meet the Internet checksum: the mbuf routine for
every chain and `len > 0`, the buffer routine by either path for `len < 2^31`,
calls chained through `initial_sum`, and the test's reference loop. -/
theorem osCpuInCksum_correct :
    (∀ (mem : Nat → UInt8) (ms : List Mbuf) (len off : Int32) (initialSum : UInt32),
      (∀ m ∈ ms, 0 ≤ m.mLen.toInt) → 0 ≤ off.toInt → 0 < len.toInt →
      (osCpuInCksumMbuf mem ms len off initialSum).toNat =
        if off.toInt + len.toInt ≤ (chainBytes mem ms).length then
          inCksum initialSum.toNat (((chainBytes mem ms).drop off.toInt.toNat).take len.toInt.toNat)
        else 0xFFFFFFFF) ∧
    (∀ (mem : Nat → UInt8) (data : Nat) (len initialSum : UInt32), len.toNat < 2 ^ 31 →
      (osCpuInCksum mem data len initialSum).toNat =
          inCksum initialSum.toNat (memBytes mem data len.toNat) ∧
        osCpuInCksum mem data len initialSum =
          osCpuInCksumMbuf mem [⟨data, len.toInt32⟩] len.toInt32 0 initialSum) ∧
    (∀ (mem : Nat → UInt8) (segments : List (Nat × UInt32)) (initialSum : UInt32),
      segments ≠ [] → (∀ seg ∈ segments, seg.2.toNat < 2 ^ 31) →
      (∀ seg ∈ segments.dropLast, seg.2.toNat % 2 = 0) →
      (segments.foldl (fun s seg => osCpuInCksum mem seg.1 seg.2 s) initialSum).toNat =
        inCksum initialSum.toNat (segments.flatMap fun seg => memBytes mem seg.1 seg.2.toNat)) ∧
    ∀ bytes : List UInt8, dumbInCksumLoop bytes 0 = inCksum 0 bytes := by
  refine ⟨osCpuInCksumMbuf_spec, fun mem data len initialSum fits => ?_, osCpuInCksum_foldl,
    fun bytes => ?_⟩
  · exact ⟨osCpuInCksum_spec mem data len initialSum fits,
      osCpuInCksum_eq_general mem data len initialSum fits⟩
  · rw [dumbInCksumLoop_spec bytes 0 (by decide), inCksum]

theorem osCpuInCksum_correct_four :
    (osCpuInCksumMbuf (fun a => a.toUInt8) [⟨0, 4⟩] 4 0 0).toNat = inCksum 0 [0, 1, 2, 3] ∧
      (osCpuInCksum (fun a => a.toUInt8) 0 4 0).toNat = inCksum 0 [0, 1, 2, 3] := by
  constructor
  · rw [osCpuInCksum_correct.1 (fun a => a.toUInt8) [⟨0, 4⟩] 4 0 0 (by decide) (by decide) (by decide)]
    decide +kernel
  · rw [(osCpuInCksum_correct.2.1 (fun a => a.toUInt8) 0 4 0 (by decide)).1]
    decide +kernel

/-- With `len == 0` the loop body still runs on the mbuf holding byte `off`,
and at an odd address it sums that byte and the one after it. An empty chain
is `out of data` with nothing to sum, and a buffer of `2^31` bytes is passed on
as a negative `len`. -/
theorem osCpuInCksum_len_zero_odd :
    (osCpuInCksumMbuf (fun _ => 1) [⟨1, 2⟩] 0 0 0).toNat ≠
        inCksum 0 (((chainBytes (fun _ => 1) [⟨1, 2⟩]).drop 0).take 0) ∧
      osCpuInCksumMbuf (fun _ => 1) [] 0 0 0 = 0xFFFFFFFF ∧
      (osCpuInCksum (fun _ => 0) 1 0x80000000 0).toNat ≠
        inCksum 0 (memBytes (fun _ => 0) 1 (2 ^ 31)) := by
  have zeros : inCksum 0 (memBytes (fun _ => 0) 1 (2 ^ 31)) = 0 := by
    have none : byteSum (memBytes (fun _ => 0) 1 (2 ^ 31)) false = 0 := by
      apply (byteSum_eq_zero _ false).mpr
      intro b member
      obtain ⟨i, -, rfl⟩ := List.mem_map.mp member
      rfl
    rw [inCksum, wordSum_eq_byteSum, none]
    rfl
  rw [zeros]
  refine ⟨by decide +kernel, by decide, by decide +kernel⟩

end Xnu.Cksum
