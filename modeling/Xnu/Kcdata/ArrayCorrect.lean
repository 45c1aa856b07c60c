import Xnu.Kcdata.Kcdata

namespace Xnu.Kcdata

/-! What a successful reservation has reserved. `kcdata_get_memory_addr_with_flavor`
checks its own sums, so the item it writes holds the padded size and the
reservation and its trailer stay inside the buffer. The array reservations
pass it `count * size_of_element` as a `uint32_t` product that nobody checks:
where the product wraps, the item holds its remainder modulo 2^32, and the
element size read back from it is not the one asked for. -/

theorem kcdataCalcPadding_toNat (size : UInt32) :
    (kcdataCalcPadding size).toNat = (2 ^ 32 - size.toNat) % 2 ^ 32 % 16 := by
  have mask : (0xf : UInt32).toNat = 2 ^ 4 - 1 := rfl
  rw [kcdataCalcPadding, UInt32.toNat_and, mask, Nat.and_two_pow_sub_one_eq_mod, UInt32.toNat_sub,
    UInt32.toNat_zero]
  rfl

theorem kcdataCalcPadding_lt (size : UInt32) : (kcdataCalcPadding size).toNat < 16 := by
  rw [kcdataCalcPadding_toNat]
  omega

/-- The padding in the low bits of an array type reads back. -/
theorem arrayPad_low {p : UInt32} (small : p.toNat < 16) : (kcdataTypeArrayPad0 ||| p) &&& 0xf = p := by
  have table : ∀ n : Fin 16, (kcdataTypeArrayPad0 ||| n.val.toUInt32) &&& 0xf = n.val.toUInt32 := by decide
  have same : p = (p.toNat).toUInt32 := by simp
  rw [same]
  exact table ⟨p.toNat, small⟩

/-- The count reads back from the low word of the array flags. -/
theorem kcdataIterArrayElemCount_flags (itemType size typeOfElement count : UInt32) :
    kcdataIterArrayElemCount ⟨itemType, size, kcdataArrayFlags typeOfElement count⟩ = count := by
  rw [kcdataIterArrayElemCount, kcdataArrayFlags]
  apply UInt32.toNat_inj.mp
  rw [UInt64.toNat_toUInt32, UInt64.toNat_or, UInt64.toNat_shiftLeft]
  apply Nat.eq_of_testBit_eq
  intro i
  rw [Nat.testBit_mod_two_pow, Nat.testBit_or, Nat.testBit_mod_two_pow, Nat.testBit_shiftLeft]
  by_cases low : i < 32
  · simp [low]
  · have high : count.toNat.testBit i = false :=
      Nat.testBit_eq_false_of_lt (lt_of_lt_of_le count.toNat_lt (Nat.pow_le_pow_right (by norm_num) (by omega)))
    simp [low, high]

/-- A size that passes the first check of `kcdata_get_memory_addr_with_flavor`
is padded and followed by a header without a wrap. -/
theorem padded_no_wrap {size : UInt32}
    (checked : ¬(size + kcdataCalcPadding size + kcdataItemSize.toUInt32).toNat + kcdataItemSize < size.toNat) :
    (size + kcdataCalcPadding size).toNat = size.toNat + (kcdataCalcPadding size).toNat ∧
      (size + kcdataCalcPadding size + kcdataItemSize.toUInt32).toNat =
        size.toNat + (kcdataCalcPadding size).toNat + kcdataItemSize := by
  have small := kcdataCalcPadding_lt size
  have bound := size.toNat_lt
  have header : kcdataItemSize.toUInt32.toNat = 16 := rfl
  rw [UInt32.toNat_add, UInt32.toNat_add, header] at checked ⊢
  rw [UInt32.toNat_add]
  unfold kcdataItemSize at checked ⊢
  omega

/-- A successful `kcdata_get_memory_addr_with_flavor`: the header with the
padded size at the old end, the user address right after it, the end moved
past the padded payload, and room left for the `BUFFER_END` trailer. -/
theorem kcdataGetMemoryAddrWithFlavor_ok {data data' : KcdataDescriptor} {type size : UInt32} {flags : UInt64}
    {userAddr : Nat} (ok : kcdataGetMemoryAddrWithFlavor data type size flags = .ok (data', userAddr))
    (started : data.addrBegin ≤ data.addrEnd) :
    (data.addrEnd, ⟨type, size + kcdataCalcPadding size, flags⟩) ∈ data'.headers ∧
      (size + kcdataCalcPadding size).toNat = size.toNat + (kcdataCalcPadding size).toNat ∧
      userAddr = data.addrEnd + kcdataItemSize ∧
      data'.addrEnd = userAddr + (size + kcdataCalcPadding size).toNat ∧
      data'.addrEnd + kcdataItemSize ≤ data.addrBegin + data.length.toNat ∧
      data'.payloads = data.payloads := by
  unfold kcdataGetMemoryAddrWithFlavor at ok
  dsimp only at ok
  split at ok
  · cases ok
  rename_i checked
  obtain ⟨padded, total⟩ := padded_no_wrap checked
  split at ok
  · cases ok
  rename_i room
  simp only [Bool.or_eq_true, decide_eq_true_eq, not_or, not_lt] at room
  rw [total] at room
  have fits : data.addrEnd + kcdataItemSize + (size.toNat + (kcdataCalcPadding size).toNat) + kcdataItemSize ≤
      data.addrBegin + data.length.toNat := by
    omega
  split at ok <;> cases ok <;> simp [kcdataWriteBufferEnd, padded, fits]

/-- Where `count * size_of_element` does not wrap, a successful
`kcdata_get_memory_addr_for_array` reserves at least the whole array inside
the buffer, and its item reads back the count and the element size. -/
theorem kcdataGetMemoryAddrForArray_no_wrap {data data' : KcdataDescriptor} {typeOfElement sizeOfElement count : UInt32}
    {userAddr : Nat} (noWrap : count.toNat * sizeOfElement.toNat < 2 ^ 32)
    (ok : kcdataGetMemoryAddrForArray data typeOfElement sizeOfElement count = .ok (data', userAddr))
    (started : data.addrBegin ≤ data.addrEnd) :
    ∃ item, (data.addrEnd, item) ∈ data'.headers ∧ userAddr = data.addrEnd + kcdataItemSize ∧
      userAddr + count.toNat * sizeOfElement.toNat ≤ data'.addrEnd ∧
      data'.addrEnd + kcdataItemSize ≤ data.addrBegin + data.length.toNat ∧
      kcdataIterArrayElemCount item = count ∧
      (count ≠ 0 → kcdataIterArrayElemSize item = sizeOfElement) := by
  have reserved : kcdataGetMemoryAddrWithFlavor data (kcdataTypeArrayPad0 ||| kcdataCalcPadding (count * sizeOfElement))
      (count * sizeOfElement) (kcdataArrayFlags typeOfElement count) = .ok (data', userAddr) := ok
  obtain ⟨header, padded, addr, moved, trailer, -⟩ := kcdataGetMemoryAddrWithFlavor_ok reserved started
  have product : (count * sizeOfElement).toNat = count.toNat * sizeOfElement.toNat := by
    rw [UInt32.toNat_mul, Nat.mod_eq_of_lt noWrap]
  have counted := kcdataIterArrayElemCount_flags (kcdataTypeArrayPad0 ||| kcdataCalcPadding (count * sizeOfElement))
    (count * sizeOfElement + kcdataCalcPadding (count * sizeOfElement)) typeOfElement count
  refine ⟨_, header, addr, by omega, trailer, counted, fun nonzero => ?_⟩
  have positive : 0 < count.toNat := by
    rcases Nat.eq_zero_or_pos count.toNat with zero | positive
    · exact absurd (UInt32.toNat_inj.mp (zero.trans UInt32.toNat_zero.symm)) nonzero
    · exact positive
  rw [kcdataIterArrayElemSize, if_neg (by rw [counted]; exact nonzero), counted,
    arrayPad_low (kcdataCalcPadding_lt _)]
  apply UInt32.toNat_inj.mp
  rw [UInt32.toNat_div, UInt32.toNat_sub_of_le _ _ (by rw [UInt32.le_iff_toNat_le, padded]; omega), padded,
    Nat.add_sub_cancel, product, Nat.mul_div_cancel_left _ positive]

/-- Three 4-byte elements in an empty 64-byte buffer. -/
theorem kcdataGetMemoryAddrForArray_no_wrap_three :
    ∃ item, (0, item) ∈ [(32, (⟨kcdataTypeBufferEnd, 0, 0⟩ : KcdataItem)), (0, ⟨0x24, 16, 0x100000003⟩)] ∧
      16 = 0 + kcdataItemSize ∧ 16 + (3 : UInt32).toNat * (4 : UInt32).toNat ≤ 32 ∧
      32 + kcdataItemSize ≤ 0 + (64 : UInt32).toNat ∧ kcdataIterArrayElemCount item = 3 ∧
      ((3 : UInt32) ≠ 0 → kcdataIterArrayElemSize item = 4) :=
  @kcdataGetMemoryAddrForArray_no_wrap ⟨64, false, 0, 0, [], []⟩
    ⟨64, false, 0, 32, [(32, ⟨kcdataTypeBufferEnd, 0, 0⟩), (0, ⟨0x24, 16, 0x100000003⟩)], []⟩ 1 4 3 16
    (by decide) (by decide) (by decide)

/-- An empty 64-byte buffer. -/
def emptyBuffer : KcdataDescriptor := ⟨64, false, 0, 0, [], []⟩

/-- 65536 elements of 65536 bytes: the product is 2^32, which the `uint32_t`
`total_size` holds as 0. Both calls succeed on a 64-byte buffer; the item they
reserve holds no byte, `kcdata_push_array` copies none, and the element size
read back is 0. -/
theorem kcdataPushArray_wraps :
    (0x10000 : Nat) * 0x10000 = 2 ^ 32 ∧
      kcdataGetMemoryAddrForArray emptyBuffer 1 0x10000 0x10000 =
        .ok (⟨64, false, 0, 16, [(16, ⟨kcdataTypeBufferEnd, 0, 0⟩), (0, ⟨0x20, 0, 0x100010000⟩)], []⟩, 16) ∧
      kcdataPushArray emptyBuffer 1 0x10000 0x10000 (List.replicate 0x100 0xaa) =
        .ok ⟨64, false, 0, 16, [(16, ⟨kcdataTypeBufferEnd, 0, 0⟩), (0, ⟨0x20, 0, 0x100010000⟩)], [(16, [])]⟩ ∧
      kcdataIterArrayElemCount ⟨0x20, 0, 0x100010000⟩ = 0x10000 ∧
      kcdataIterArrayElemSize ⟨0x20, 0, 0x100010000⟩ = 0 := by
  decide

end Xnu.Kcdata
