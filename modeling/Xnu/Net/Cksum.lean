import Xnu.Lib.OnesComplement

namespace Xnu.Cksum

/-! `os_cpu_in_cksum_mbuf` (its 64-bit version) and `os_cpu_in_cksum` of
`bsd/netinet/cpu_in_cksum_gen.c` on a little-endian machine. Memory is a byte
array addressed by `Nat`. The C `int`s are `Int`: for non-negative `len`,
`off` and `m_len` no step of the code leaves the range of `int`. The sums are
`uint64_t`. -/

/-- The fields of `struct _mbuf` the routine reads; `m_next` is the list. -/
structure Mbuf where
  mData : Nat
  mLen : Int32

/-- `*(uint16_t *)p`. -/
def load16 (mem : Nat → UInt8) (p : Nat) : UInt64 := UInt64.ofNat (loadLE mem p 2)

/-- `*(uint32_t *)p`. -/
def load32 (mem : Nat → UInt8) (p : Nat) : UInt64 := UInt64.ofNat (loadLE mem p 4)

/-- `n` consecutive `partial += *(uint32_t *)(void *)(data + 4 * i)`, as the
unrolled runs of the source do them. -/
def addWords (mem : Nat → UInt8) (data : Nat) : Nat → UInt64 → UInt64
  | 0, partialSum => partialSum
  | n + 1, partialSum => addWords mem (data + 4) n (partialSum + load32 mem data)

/-- `partial = (partial << 8) + (partial >> 56)` under `needs_swap`. -/
def swapIf (needsSwap : Bool) (partialSum : UInt64) : UInt64 :=
  if needsSwap then (partialSum <<< 8) + (partialSum >>> 56) else partialSum

/-- The registers of the per-mbuf body. -/
structure Regs where
  sum : UInt64
  partialSum : UInt64
  data : Nat
  mlen : Int

/-- `while (mlen >= 64)`: sixteen words a round; a `partial` that reaches bit 62
is flushed into `sum`. -/
def loop64 (mem : Nat → UInt8) (needsSwap : Bool) (r : Regs) : Regs :=
  if 64 ≤ r.mlen then
    let partialSum := addWords mem r.data 16 r.partialSum
    if partialSum &&& ((3 : UInt64) <<< 62) ≠ 0 then
      let swapped := swapIf needsSwap partialSum
      loop64 mem needsSwap
        ⟨r.sum + (swapped >>> 32) + (swapped &&& 0xffffffff), 0, r.data + 64, r.mlen - 64⟩
    else loop64 mem needsSwap ⟨r.sum, partialSum, r.data + 64, r.mlen - 64⟩
  else r
termination_by r.mlen.toNat
decreasing_by all_goals omega

/-- One of the tests `if (mlen & bit)` after the loop, adding `words` words. -/
def tailStep (mem : Nat → UInt8) (mlen bit : Int) (words : Nat) (r : Regs) : Regs :=
  if Int.land mlen bit ≠ 0 then
    { r with partialSum := addWords mem r.data words r.partialSum, data := r.data + 4 * words }
  else r

/-- The tests of `mlen & 32`, `16`, `8`, `4` and `2`; `mlen` is not updated by them. -/
def tail (mem : Nat → UInt8) (r : Regs) : Regs :=
  let r' := tailStep mem r.mlen 4 1 (tailStep mem r.mlen 8 2
    (tailStep mem r.mlen 16 4 (tailStep mem r.mlen 32 8 r)))
  if Int.land r.mlen 2 ≠ 0 then
    { r' with partialSum := r'.partialSum + load16 mem r'.data, data := r'.data + 2 }
  else r'

/-- `trailing_bytes:` a last odd byte goes in the low half of a word. -/
def trailingByte (mem : Nat → UInt8) (r : Regs) (startedOnOdd : Bool) : Regs × Bool :=
  if Int.land r.mlen 1 ≠ 0 then
    ({ r with partialSum := r.partialSum + (mem r.data).toUInt64 }, !startedOnOdd)
  else (r, startedOnOdd)

/-- `if ((uintptr_t)data & 2)`: a halfword aligns `data` to four bytes. -/
def alignHalf (mem : Nat → UInt8) (r : Regs) : Regs :=
  if r.data &&& 2 ≠ 0 then
    { r with
      partialSum := r.partialSum + load16 mem r.data
      data := r.data + 2
      mlen := r.mlen - 2 }
  else r

/-- From the test of `data & 2` to `trailing_bytes:`, at an even `data`; with
fewer than two bytes at an address `≡ 2 (mod 4)` it jumps to the trailing byte. -/
def cksumWords (mem : Nat → UInt8) (needsSwap : Bool) (r : Regs) (startedOnOdd : Bool) :
    Regs × Bool :=
  if r.data &&& 2 ≠ 0 ∧ r.mlen < 2 then trailingByte mem r startedOnOdd
  else
    let r := loop64 mem needsSwap (alignHalf mem r)
    trailingByte mem { tail mem r with mlen := r.mlen } startedOnOdd

/-- The body of the loop over the chain from `post_initial_offset:` on, for an
mbuf whose bytes to sum start at `data`. -/
def cksumBody (mem : Nat → UInt8) (data : Nat) (mlen len : Int) (sum : UInt64)
    (startedOnOdd : Bool) : UInt64 × Bool × Int :=
  if mlen = 0 then (sum, startedOnOdd, len)
  else
    let mlen := if mlen > len then len else mlen
    let len := len - mlen
    -- align on a word boundary: an odd first byte goes in the high half
    let odd := data % 2 = 1
    let startedOnOdd := if odd then !startedOnOdd else startedOnOdd
    let r : Regs := if odd then ⟨sum, (mem data).toUInt64 <<< 8, data + 1, mlen - 1⟩
      else ⟨sum, 0, data, mlen⟩
    let needsSwap := startedOnOdd
    let w := cksumWords mem needsSwap r startedOnOdd
    let swapped := swapIf needsSwap w.1.partialSum
    let sum := w.1.sum + ((swapped >>> 32) + (swapped &&& 0xffffffff))
    ((sum >>> 32) + (sum &&& 0xffffffff), w.2, len)

/-- `for (; len > 0; m = m->_m_next)`; `none` is the `out of data` return. -/
def cksumChain (mem : Nat → UInt8) (len : Int) (sum : UInt64) (startedOnOdd : Bool) :
    List Mbuf → Option UInt64
  | [] => if 0 < len then none else some sum
  | m :: rest =>
    if 0 < len then
      let r := cksumBody mem m.mData m.mLen.toInt len sum startedOnOdd
      cksumChain mem r.2.2 r.1 r.2.1 rest
    else some sum

/-- Where the first loop of the routine leaves off. -/
inductive Skip
  | outOfData
  | done
  | found (data : Nat) (mlen : Int) (rest : List Mbuf)

/-- The first loop: walk to the mbuf holding byte `off`. With `len == 0` it
breaks out at the first mbuf that ends at or before `off`. -/
def cksumSkip (len : Int) : List Mbuf → Int → Skip
  | [], _ => .outOfData
  | m :: rest, off =>
    if m.mLen.toInt > off then .found (m.mData + off.toNat) (m.mLen.toInt - off) rest
    else if len = 0 then .done
    else cksumSkip len rest (off - m.mLen.toInt)

/-- The fold of the 64-bit sum into `final_acc` (an `unsigned int`). -/
def finalFold (sum : UInt64) : UInt32 :=
  let finalAcc : UInt32 := ((sum >>> 48) + ((sum >>> 32) &&& (0xffff : UInt64)) +
    ((sum >>> 16) &&& (0xffff : UInt64)) + (sum &&& (0xffff : UInt64))).toUInt32
  let finalAcc := (finalAcc >>> 16) + (finalAcc &&& 0xffff)
  let finalAcc := (finalAcc >>> 16) + (finalAcc &&& 0xffff)
  finalAcc &&& 0xffff

def osCpuInCksumMbuf (mem : Nat → UInt8) (m : List Mbuf) (len off : Int32) (initialSum : UInt32) :
    UInt32 :=
  let sum := initialSum.toUInt64
  match cksumSkip len.toInt m off.toInt with
  | .outOfData => 0xFFFFFFFF
  | .done => finalFold sum
  | .found data mlen rest =>
    let r := cksumBody mem data mlen len.toInt sum false
    match cksumChain mem r.2.2 r.1 r.2.1 rest with
    | none => 0xFFFFFFFF
    | some sum => finalFold sum

/-- The fast path's fold of a 64-bit sum of 32-bit words. -/
def fastFold (sum : UInt64) : UInt32 :=
  let sum := (sum >>> 32) + (sum &&& 0xffffffff)
  let sum := (sum >>> 16) + (sum &&& 0xffff)
  let sum := (sum >>> 16) + (sum &&& 0xffff)
  let sum := (sum >>> 16) + (sum &&& 0xffff)
  (sum &&& 0xffff).toUInt32

def osCpuInCksum (mem : Nat → UInt8) (data : Nat) (len initialSum : UInt32) : UInt32 :=
  if data % 4 = 0 ∧ len ≤ 64 ∧ len &&& 3 = 0 then
    if len = 20 then fastFold (addWords mem data 5 initialSum.toUInt64)
    else fastFold (addWords mem data (len.toNat / 4) initialSum.toUInt64)
  else osCpuInCksumMbuf mem [⟨data, len.toInt32⟩] len.toInt32 0 initialSum

/-! `dumb_in_cksum` of `tests/in_cksum_test.c`, the reference the tests compare
against. -/

/-- `while ((val = partial >> 16)) { partial &= 0xffff; partial += val; }` -/
def foldCarries (p : Nat) : Nat :=
  if p >>> 16 ≠ 0 then foldCarries ((p &&& 0xffff) + (p >>> 16)) else p
termination_by p
decreasing_by
  have split := Nat.div_add_mod p 65536
  have pos : 0 < p / 65536 := by rw [Nat.shiftRight_eq_div_pow] at *; omega
  rw [Nat.and_two_pow_sub_one_eq_mod p 16, Nat.shiftRight_eq_div_pow]
  omega

def dumbInCksumLoop : List UInt8 → Nat → Nat
  | b0 :: b1 :: rest, p => dumbInCksumLoop rest (foldCarries (p + (b0.toNat ||| b1.toNat <<< 8)))
  | [b0], p => foldCarries (p + b0.toNat)
  | [], p => p

def dumbInCksum (buf : List UInt8) : UInt16 :=
  (~~~(dumbInCksumLoop buf 0).toUInt32 &&& 0xffff).toUInt16

end Xnu.Cksum
