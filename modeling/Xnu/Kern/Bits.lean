import Mathlib

namespace Xnu.Bits

/-! The bit scans of `osfmk/kern/bits.h` on a 64-bit word, and the scans of a
bitmap (`bitmap_t *`) of `BITMAP_LEN(nbits)` such words, word `i` holding the
bits `64 * i` to `64 * i + 63`; `map[i]` is `map.getD i 0`. `int` is `Int32`,
`uint` is `UInt32`, and every conversion between the integer types wraps as
the compiled code does. -/

/-- `mask(width)`: the `width` low bits, all 64 when `width >= 64`. -/
def mask (width : Int32) : UInt64 := if width ≥ 64 then ~~~0 else (1 <<< width.toNatClampNeg.toUInt64) - 1

/-- `bits(x, hi, lo)`, that is `extract(x, lo, hi - lo + 1)`. -/
def bits (x : UInt64) (hi lo : Int32) : UInt64 := (x >>> lo.toNatClampNeg.toUInt64) &&& mask (hi - lo + 1)

/-- `bitmap_index(n)`: the word holding bit `n`. -/
def bitmapIndex (n : UInt32) : UInt64 := bits n.toUInt64 63 6

/-- `__builtin_clzll(x)` as arm64's `clz` computes it: the zero bits above the
most significant set bit, 64 when `x` is zero. -/
def clz (x : UInt64) : Int64 := if x = 0 then 64 else (63 - x.toNat.log2 : Nat).toInt64

/-- `bit_first(bitmap)`, the arm64 branch: `63 - clz(bitmap)`. -/
def bitFirst (bitmap : UInt64) : Int32 := 63 - (clz bitmap).toInt32

/-- `__bit_next(bitmap, previous_bit)`: `bit_first` of the bits below
`previous_bit`, of the whole word when `previous_bit` is 0. -/
def bitNextInner (bitmap : UInt64) (previousBit : Int32) : Int32 :=
  bitFirst (bitmap &&& if previousBit ≠ 0 then mask previousBit else ~~~0)

/-- `bit_next(bitmap, previous_bit)`. -/
def bitNext (bitmap : UInt64) (previousBit : Int32) : Int32 :=
  if previousBit = 0 then -1 else bitNextInner bitmap previousBit

/-- `__builtin_ffsll(x)`: one plus the index of the least significant set bit,
0 when `x` is zero. -/
def ffsll (x : UInt64) : Int32 :=
  match (List.range 64).find? x.toNat.testBit with
  | some i => i.toInt32 + 1
  | none => 0

/-- `lsb_first(bitmap)`. -/
def lsbFirst (bitmap : UInt64) : Int32 := ffsll bitmap - 1

/-- `lsb_next(bitmap, previous_bit)`: `lsb_first` of the bits above `previous_bit`. -/
def lsbNext (bitmap : UInt64) (previousBit : Int32) : Int32 := lsbFirst (bitmap &&& ~~~mask (previousBit + 1))

/-- The loop `for (i = count - 1; i >= 0; i--)` over the words of `map`:
a zero word is skipped, the first other word `i` gives `found i map[i]`, and
the loop gives `-1` past word 0. -/
def scanDown (found : Nat → UInt64 → Int32) (map : List UInt64) : Nat → Int32
  | 0 => -1
  | i + 1 => if map.getD i 0 = 0 then scanDown found map i else found i (map.getD i 0)

/-- The loop `for (i = lo; i < lo + count; i++)` over the words of `map`, as `scanDown`. -/
def scanUp (found : Nat → UInt64 → Int32) (map : List UInt64) (lo : Nat) : Nat → Int32
  | 0 => -1
  | count + 1 => if map.getD lo 0 = 0 then scanUp found map (lo + 1) count else found lo (map.getD lo 0)

/-- `bitmap_first(map, nbits)`: `int i` runs down from `bitmap_index(nbits - 1)`,
which the `(int)` cast keeps as it is below `2^26`, and the result
`(i << 6) + bit_first(map[i])` is computed in `int`. -/
def bitmapFirst (map : List UInt64) (nbits : UInt32) : Int32 :=
  scanDown (fun i w => (i.toInt32 <<< 6) + bitFirst w) map ((bitmapIndex (nbits - 1)).toNat + 1)

/-- `bitmap_lsb_first(map, nbits)`: `uint i` runs up to `bitmap_index(nbits - 1)`,
the result `(i << 6) + (uint32_t)lsb_first(map[i])` computed in `uint` and cast to `int`. -/
def bitmapLsbFirst (map : List UInt64) (nbits : UInt32) : Int32 :=
  scanUp (fun i w => ((i.toUInt32 <<< 6) + (lsbFirst w).toUInt32).toInt32) map 0 ((bitmapIndex (nbits - 1)).toNat + 1)

/-- `bitmap_next(map, prev)`: the bits of word `bitmap_index(prev - 1)` below
`bits(prev, 5, 0)`, then the words below it, with `int64_t i`. -/
def bitmapNext (map : List UInt64) (prev : UInt32) : Int32 :=
  if prev = 0 then -1
  else
    let i : Int64 := (bitmapIndex (prev - 1)).toInt64
    let res := bitNextInner (map.getD i.toNatClampNeg 0) (bits prev.toUInt64 5 0).toUInt32.toInt32
    if res ≥ 0 then (res.toInt64 + (i <<< 6)).toInt32
    else scanDown (fun i w => ((i.toInt64 <<< 6) + (bitFirst w).toInt64).toInt32) map i.toNatClampNeg

/-- `bitmap_lsb_next(map, nbits, prev)`: the bits of word `bitmap_index(prev + 1)`
above `bits(prev + 1, 5, 0) - 1` (which wraps to `-1` at a word boundary),
then the words above it up to `bitmap_index(nbits - 1)`, with `uint64_t i`. -/
def bitmapLsbNext (map : List UInt64) (nbits prev : UInt32) : Int32 :=
  if prev + 1 ≥ nbits then -1
  else
    let i := bitmapIndex (prev + 1)
    let b : UInt32 := (bits (prev + 1).toUInt64 5 0 - 1).toUInt32
    let res := lsbNext (map.getD i.toNat 0) b.toInt32
    if res ≥ 0 then (res.toInt64.toUInt64 + (i <<< 6)).toUInt32.toInt32
    else
      scanUp (fun i w => ((i.toUInt64 <<< 6) + (lsbFirst w).toInt64.toUInt64).toUInt32.toInt32) map (i.toNat + 1)
        ((bitmapIndex (nbits - 1)).toNat - i.toNat)

/-- The positions the loop `for (i = start; i >= 0; i = bitmap_next(map, i))`
visits, in order; `none` when `fuel` passes do not end it. -/
def foreachDown (map : List UInt64) : Nat → Int32 → Option (List Int32)
  | 0, i => if i < 0 then some [] else none
  | fuel + 1, i => if i < 0 then some [] else (foreachDown map fuel (bitmapNext map i.toUInt32)).map (i :: ·)

/-- The positions the loop `for (i = start; i >= 0; i = bitmap_lsb_next(map, nbits, i))`
visits, in order; `none` when `fuel` passes do not end it. -/
def foreachUp (map : List UInt64) (nbits : UInt32) : Nat → Int32 → Option (List Int32)
  | 0, i => if i < 0 then some [] else none
  | fuel + 1, i => if i < 0 then some [] else (foreachUp map nbits fuel (bitmapLsbNext map nbits i.toUInt32)).map (i :: ·)

end Xnu.Bits
