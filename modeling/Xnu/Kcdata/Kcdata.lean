import Mathlib

namespace Xnu.Kcdata

/-! The writer side of `osfmk/kern/kern_cdata.c` on a descriptor that neither
compresses nor copies out: `kcdata_get_memory_addr_with_flavor`, the array
reservations `kcdata_get_memory_addr_for_array` and `kcdata_push_array`, and
the reader `kcdata_iter_array_elem_size` of `kcdata.h`. What a call writes is
kept as two logs: the `struct kcdata_item` headers it copies in, and the
payload bytes `kcdata_memcpy` copies after them. Sizes are the source's
`uint32_t` values; addresses and the `size_t` sums are unbounded. -/

/-- `KCDATA_TYPE_ARRAY_PAD0`. -/
def kcdataTypeArrayPad0 : UInt32 := 0x20

/-- `KCDATA_TYPE_BUFFER_END`. -/
def kcdataTypeBufferEnd : UInt32 := 0xF19158ED

/-- `sizeof(struct kcdata_item)`. -/
def kcdataItemSize : Nat := 16

/-- `struct kcdata_item`. -/
structure KcdataItem where
  type : UInt32
  size : UInt32
  flags : UInt64
deriving DecidableEq, Repr

/-- The errors of the writer. -/
inductive KcdataError where
  | invalidArgument
  | insufficientBufferSize
deriving DecidableEq, Repr

/-- `struct kcdata_descriptor` with `KCFLAG_NO_AUTO_ENDBUFFER` as a flag, and
what has been copied into its buffer, most recent first. -/
structure KcdataDescriptor where
  length : UInt32
  noAutoEndbuffer : Bool
  addrBegin : Nat
  addrEnd : Nat
  headers : List (Nat × KcdataItem)
  payloads : List (Nat × List UInt8)
deriving DecidableEq, Repr

/-- `kcdata_calc_padding(size)`: the bytes that round `size` up to 16. -/
def kcdataCalcPadding (size : UInt32) : UInt32 := (0 - size) &&& 0xf

/-- `kcdata_write_buffer_end`: a `KCDATA_TYPE_BUFFER_END` header at the end,
which does not move the end. -/
def kcdataWriteBufferEnd (data : KcdataDescriptor) : KcdataDescriptor :=
  { data with headers := (data.addrEnd, ⟨kcdataTypeBufferEnd, 0, 0⟩) :: data.headers }

/-- `kcdata_get_memory_addr_with_flavor(data, type, size, flags, &user_addr)`:
the descriptor after the call and `user_addr`. `total_size` is a `uint32_t`;
the two checks add `sizeof(info)` as a `size_t`. -/
def kcdataGetMemoryAddrWithFlavor (data : KcdataDescriptor) (type size : UInt32) (flags : UInt64) :
    Except KcdataError (KcdataDescriptor × Nat) :=
  let origSize := size
  let padding := kcdataCalcPadding size
  let size := size + padding
  let totalSize := size + (kcdataItemSize.toUInt32)
  if totalSize.toNat + kcdataItemSize < origSize.toNat then .error .invalidArgument
  else if totalSize.toNat + kcdataItemSize > data.length.toNat ||
      data.length.toNat - (totalSize.toNat + kcdataItemSize) < data.addrEnd - data.addrBegin then
    .error .insufficientBufferSize
  else
    let data := { data with
      headers := (data.addrEnd, ⟨type, size, flags⟩) :: data.headers
      addrEnd := data.addrEnd + kcdataItemSize }
    let userAddr := data.addrEnd
    let data := { data with addrEnd := data.addrEnd + size.toNat }
    .ok (if data.noAutoEndbuffer then data else kcdataWriteBufferEnd data, userAddr)

/-- The `flags` of an array item: the element type above the count. -/
def kcdataArrayFlags (typeOfElement count : UInt32) : UInt64 :=
  (typeOfElement.toUInt64 <<< 32) ||| count.toUInt64

/-- `kcdata_get_memory_addr_for_array(data, type_of_element,
size_of_element, count, &user_addr)`. -/
def kcdataGetMemoryAddrForArray (data : KcdataDescriptor) (typeOfElement sizeOfElement count : UInt32) :
    Except KcdataError (KcdataDescriptor × Nat) :=
  let totalSize := count * sizeOfElement
  let pad := kcdataCalcPadding totalSize
  kcdataGetMemoryAddrWithFlavor data (kcdataTypeArrayPad0 ||| pad) totalSize (kcdataArrayFlags typeOfElement count)

/-- `kcdata_push_array(data, type_of_element, size_of_element, count,
input_data)`: the reservation, then `total_size` bytes of `input_data` copied
to it. -/
def kcdataPushArray (data : KcdataDescriptor) (typeOfElement sizeOfElement count : UInt32)
    (inputData : List UInt8) : Except KcdataError KcdataDescriptor :=
  let totalSize := count * sizeOfElement
  let pad := kcdataCalcPadding totalSize
  match kcdataGetMemoryAddrWithFlavor data (kcdataTypeArrayPad0 ||| pad) totalSize
      (kcdataArrayFlags typeOfElement count) with
  | .error e => .error e
  | .ok (data, uaddr) => .ok { data with payloads := (uaddr, inputData.take totalSize.toNat) :: data.payloads }

/-- `kcdata_iter_array_elem_count`. -/
def kcdataIterArrayElemCount (item : KcdataItem) : UInt32 := item.flags.toUInt32

/-- `kcdata_iter_array_elem_size` on an item of type
`KCDATA_TYPE_ARRAY_PAD*`, the only array type the writer produces: the size
without the padding recorded in the low bits of the type, shared among the
elements. -/
def kcdataIterArrayElemSize (item : KcdataItem) : UInt32 :=
  if kcdataIterArrayElemCount item = 0 then 0
  else (item.size - (item.type &&& 0xf)) / kcdataIterArrayElemCount item

end Xnu.Kcdata
