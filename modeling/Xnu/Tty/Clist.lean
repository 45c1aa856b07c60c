import Xnu.Lib.Ring
import Xnu.Lib.ByteBits

namespace Xnu.Tty

/-! The clists of `bsd/kern/tty_subr.c`: ring buffers of `c_cn` characters
from `c_cs` to `c_ce`, with `c_cc` characters queued from `c_cf` to `c_cl`,
and, where `c_cq` is not NULL, a bitmap of one quote bit per character. The
pointers are offsets from `c_cs`, `none` for NULL, and `c_ce` is the offset
`c_cn`. Each access to the ring or to the bitmap is checked: one outside the
allocation, or through a NULL pointer, makes the operation undefined (`none`).
The loops carry fuel, `c_cn + 1` passes, and run out to `none`. The clists
are allocated (`c_cs` is not NULL): the `clalloc` that `putc` and `b_to_q`
make for an unallocated one, `clfree` and `catq` are left out. -/

/-- `TTY_QUOTE`. -/
def ttyQuote : Int32 := 0x100

/-- `INT_MAX`. -/
def intMax : Nat := 2 ^ 31 - 1

/-- `QMEM(n)`: the bytes of the quote bitmap of a ring of `n` characters. -/
def qmem (n : Nat) : Nat := (n - 1) / 8 + 1

/-- A pointer difference `a - b` stored in a `size_t`. -/
def sizeDiff (a b : Nat) : Nat := (a + 2 ^ 64 - b) % 2 ^ 64

/-- `struct clist`. -/
structure Clist where
  cc : Nat
  cn : Nat
  cf : Option Nat
  cl : Option Nat
  cs : Nat → UInt8
  cq : Option (Nat → UInt8)

/-! The bitmap macros of `sys/param.h` on a bitmap of `size` bytes. -/

/-- The byte `cp[j]` of a bitmap of `size` bytes. -/
def bitmapByte (size : Nat) (cp : Nat → UInt8) (j : Nat) : Option UInt8 := if j < size then some (cp j) else none

/-- `cp[j] = b`. -/
def setBitmapByte (size : Nat) (cp : Nat → UInt8) (j : Nat) (b : UInt8) : Option (Nat → UInt8) :=
  if j < size then some (Function.update cp j b) else none

/-- `isset(cp, i)`. -/
def isset (size : Nat) (cp : Nat → UInt8) (i : Nat) : Option Bool := do
  let byte ← bitmapByte size cp (i / 8)
  pure (byte &&& (1 <<< (i % 8)).toUInt8 ≠ 0)

/-- `setbit(cp, i)`. -/
def setbit (size : Nat) (cp : Nat → UInt8) (i : Nat) : Option (Nat → UInt8) := do
  let byte ← bitmapByte size cp (i / 8)
  setBitmapByte size cp (i / 8) (byte ||| (1 <<< (i % 8)).toUInt8)

/-- `clrbit(cp, i)`. -/
def clrbit (size : Nat) (cp : Nat → UInt8) (i : Nat) : Option (Nat → UInt8) := do
  let byte ← bitmapByte size cp (i / 8)
  setBitmapByte size cp (i / 8) (byte &&& ~~~(1 <<< (i % 8)).toUInt8)

/-- The loop `for (i = sby; i < eby; i++) cp[i] = 0x00;` from `i`, `n` times. -/
def zeroBytes (size : Nat) : (Nat → UInt8) → Nat → Nat → Option (Nat → UInt8)
  | cp, _, 0 => some cp
  | cp, i, n + 1 => do
    let cp ← setBitmapByte size cp i 0
    zeroBytes size cp (i + 1) n

/-- `clrbits(cp, off, len)`: the quote bits `off` to `off + len - 1` cleared
a byte at a time. -/
def clrbits (size : Nat) (cp : Nat → UInt8) (off len : Nat) : Option (Nat → UInt8) :=
  if len = 1 then clrbit size cp off
  else
    let sby := off / 8
    let sbi := off % 8
    let eby := (off + len) / 8
    let ebi := (off + len) % 8
    if sby = eby then do
      let mask := (((1 <<< (ebi - sbi)) - 1) <<< sbi).toUInt8
      let byte ← bitmapByte size cp sby
      setBitmapByte size cp sby (byte &&& ~~~mask)
    else do
      let mask := ((1 <<< sbi) - 1).toUInt8
      let byte ← bitmapByte size cp sby
      let cp ← setBitmapByte size cp sby (byte &&& mask)
      let mask := ((1 <<< ebi) - 1).toUInt8
      -- handle remainder bits, if any, for a non-0 ebi value
      let cp ← if mask ≠ 0 then do
          let byte ← bitmapByte size cp eby
          setBitmapByte size cp eby (byte &&& ~~~mask)
        else pure cp
      zeroBytes size cp (sby + 1) (eby - (sby + 1))

namespace Clist

/-- `clalloc(clp, size, quot)` where the allocations succeed: zeroed storage
and an empty queue. -/
def clalloc (size : Nat) (quot : Bool) : Clist :=
  ⟨0, size, none, none, fun _ => 0, if quot then some fun _ => 0 else none⟩

/-- `c_cs[i]`. -/
def readByte (s : Clist) (i : Nat) : Option UInt8 := if i < s.cn then some (s.cs i) else none

/-- `bcopy(c_cs + i, p, n)`. -/
def readBytes (s : Clist) (i n : Nat) : Option (List UInt8) :=
  if i + n ≤ s.cn then some (readAt s.cs i n) else none

/-- `c_cs[i] = b`. -/
def writeByte (s : Clist) (i : Nat) (b : UInt8) : Option Clist :=
  if i < s.cn then some { s with cs := Function.update s.cs i b } else none

/-- `bcopy(p, c_cs + i, bytes.length)`. -/
def writeBytes (s : Clist) (i : Nat) (bytes : List UInt8) : Option Clist :=
  if i + bytes.length ≤ s.cn then some { s with cs := writeAt s.cs i bytes } else none

/-- The character at `c_cs + i` as `getc`, `unputc`, `firstc` and `nextc`
return it: `*cp & 0xff`, with `TTY_QUOTE` where its quote bit is set. -/
def charAt (s : Clist) (i : Nat) : Option Int32 := do
  let byte ← s.readByte i
  let c : Int32 := byte.toUInt32.toInt32
  match s.cq with
  | none => pure c
  | some q => do
    let quoted ← isset (qmem s.cn) q i
    pure (if quoted then c ||| ttyQuote else c)

/-- The pointer after `c_cs + i`, back at `c_cs` from `c_ce`. -/
def advance (s : Clist) (i : Nat) : Nat := if i = s.cn then 0 else i

/-- `c_cf = c_cl = NULL` once the queue is empty. -/
def resetIfEmpty (s : Clist) : Clist := if s.cc = 0 then { s with cf := none, cl := none } else s

/-- `getc(clp)`. -/
def getc (s : Clist) : Option (Clist × Int32) :=
  if s.cc = 0 then some (s, -1)
  else do
    let cf ← s.cf
    let c ← s.charAt cf
    pure (resetIfEmpty { s with cf := some (s.advance (cf + 1)), cc := s.cc - 1 }, c)

/-- `putc(c, clp)`. -/
def putc (c : Int32) (s : Clist) : Option (Clist × Int32) := do
  let s := if s.cc = 0 then { s with cf := some 0, cl := some 0 } else s
  if s.cc = s.cn then pure (s, -1)
  else
    let cl ← s.cl
    let s ← s.writeByte cl (c &&& 0xff).toUInt32.toUInt8
    if cl > intMax then pure (s, -1)
    else
      let s ← match s.cq with
        | none => pure s
        | some q => do
          let q ← if c &&& ttyQuote ≠ 0 then setbit (qmem s.cn) q cl else clrbit (qmem s.cn) q cl
          pure { s with cq := some q }
      pure ({ s with cc := s.cc + 1, cl := some (s.advance (cl + 1)) }, 0)

/-- `unputc(clp)`. -/
def unputc (s : Clist) : Option (Clist × Int32) :=
  if s.cc = 0 then some (s, -1)
  else do
    let cl ← s.cl
    let cl := if cl = 0 then s.cn - 1 else cl - 1
    let s := { s with cl := some cl, cc := s.cc - 1 }
    let c ← s.charAt cl
    pure (resetIfEmpty s, c)

/-- The chunk a pass of the loops of `q_to_b` and `ndflush` takes: from
`c_cf` up to `c_cl`, or up to `c_ce` where `c_cf >= c_cl`, and no more than
`count`. -/
def frontChunk (s : Clist) (cf cl : Nat) (count : Int) : Nat :=
  let cc := if cf ≥ cl then sizeDiff s.cn cf else sizeDiff cl cf
  if cc > intMax ∨ (cc : Int) > count then count.toNat else cc

/-- The loop `while (count > 0 && clp->c_cc > 0)` of `q_to_b` and of
`ndflush`: a pass takes `frontChunk` off the front, which `q_to_b` copies out
(`copy`) and `ndflush` drops. The state, `count` and the bytes copied. -/
def frontLoop (copy : Bool) : Nat → Clist → Int → List UInt8 → Option (Clist × Int × List UInt8)
  | 0, _, _, _ => none
  | fuel + 1, s, count, out =>
    if count > 0 ∧ s.cc > 0 then do
      let cf ← s.cf
      let cl ← s.cl
      let cc := frontChunk s cf cl count
      let bytes ← if copy then s.readBytes cf cc else pure []
      frontLoop copy fuel { s with cc := s.cc - cc, cf := some (s.advance (cf + cc)) } (count - cc) (out ++ bytes)
    else some (s, count, out)

/-- `q_to_b(clp, cp, count)`: the bytes written at `cp` and the count it
returns, `MIN(INT32_MAX, p - cp)`. -/
def qToB (count : Int) (s : Clist) : Option (Clist × Nat × List UInt8) := do
  let (s, _, out) ← frontLoop true (s.cn + 1) s count []
  pure (resetIfEmpty s, min intMax out.length, out)

/-- `ndflush(clp, count)`. -/
def ndflush (count : Int) (s : Clist) : Option Clist :=
  if count = s.cc then some { s with cc := 0, cf := none, cl := none }
  else do
    let (s, _, _) ← frontLoop false (s.cn + 1) s count []
    pure (resetIfEmpty s)

/-- The loop `while (count > 0 && clp->c_cc < clp->c_cn)` of `b_to_q`, reading
the caller's bytes `src` from `p`: a pass copies the room from `c_cl` up to
`c_cf`, or up to `c_ce` where `c_cf <= c_cl`, and no more than `count`, and
clears their quote bits. The state and `count`. -/
def bToQLoop (src : Nat → UInt8) : Nat → Clist → Int → Nat → Option (Clist × Int)
  | 0, _, _, _ => none
  | fuel + 1, s, count, p =>
    if count > 0 ∧ s.cc < s.cn then do
      let cf ← s.cf
      let cl ← s.cl
      let cc := if cf > cl then sizeDiff cf cl else sizeDiff s.cn cl
      let cc := if cc > intMax ∨ (cc : Int) > count then count.toNat else cc
      let s ← s.writeBytes cl (readAt src p cc)
      let grown (s : Clist) : Clist := { s with cc := s.cc + cc, cl := some (s.advance (cl + cc)) }
      match s.cq with
      | none => bToQLoop src fuel (grown s) (count - cc) (p + cc)
      | some q =>
        -- an offset past `INT_MAX` ends the call with `count = 0`
        if cl > intMax ∨ cc > intMax then some (s, 0)
        else do
          let q ← clrbits (qmem s.cn) q cl cc
          bToQLoop src fuel (grown { s with cq := some q }) (count - cc) (p + cc)
    else some (s, count)

/-- `b_to_q(cp, count, clp)`: the count of bytes not transferred. -/
def bToQ (src : Nat → UInt8) (count : Int) (s : Clist) : Option (Clist × Int) :=
  if count ≤ 0 then some (s, 0)
  else
    let s := if s.cc = 0 then { s with cf := some 0, cl := some 0 } else s
    if s.cc = s.cn then some (s, count)
    else bToQLoop src (s.cn + 1) s count 0

/-- `firstc(clp, &c)`: the static count it sets, the pointer it returns and
the character it stores in `c`. -/
def firstc (s : Clist) : Option (Nat × Option Nat × Option Int32) :=
  if s.cc = 0 then some (0, none, none)
  else do
    let cf ← s.cf
    let c ← s.charAt cf
    pure (s.cc, some cf, some c)

/-- `nextc(clp, cp, &c)` with the static count `left`: the count after it,
the pointer it returns and the character it stores in `c`. -/
def nextc (s : Clist) (cp : Option Nat) (left : Nat) : Option (Nat × Option Nat × Option Int32) :=
  -- first time initialization
  let left := if s.cf = cp then s.cc else left
  match cp with
  | none => some (left, none, none)
  | some p =>
    if left = 0 then some (left, none, none)
    else if left - 1 = 0 then some (0, none, none)
    else do
      let p := s.advance (p + 1)
      let c ← s.charAt p
      pure (left - 1, some p, some c)

/-- The loop `for (cp = firstc(clp, &c); cp; cp = nextc(clp, cp, &c))` of
`ttyretype`, from the character `c` at `c_cs + p` with the static count
`left`, with fuel: the characters it visits. -/
def scanLoop (s : Clist) : Nat → Nat → Nat → Int32 → Option (List Int32)
  | 0, _, _, _ => none
  | fuel + 1, left, p, c => do
    let (left, cp, next) ← s.nextc (some p) left
    match cp, next with
    | some p, some next => (c :: ·) <$> s.scanLoop fuel left p next
    | _, _ => pure [c]

/-- The characters the loop of `ttyretype` echoes from the clist. -/
def scan (s : Clist) : Option (List Int32) := do
  let (left, cp, c) ← s.firstc
  match cp, c with
  | some p, some c => s.scanLoop (s.cn + 1) left p c
  | _, _ => pure []

/-- The scan of `ndqb` from `c_cs + i` with `cc` characters left: it stops
before the character `stops` picks, and at `c_ce`. -/
def ndqbScan (s : Clist) (stops : Nat → Option Bool) : Nat → Nat → Nat → Option Nat
  | 0, _, count => some count
  | cc + 1, i, count => do
    let stop ← stops i
    if stop then some count
    else if i + 1 = s.cn then some (count + 1)
    else ndqbScan s stops cc (i + 1) (count + 1)

/-- `ndqb(clp, flag)`. With `flag == 0` the count is `c_cl - c_cf` as a
`size_t`, replaced by `c_ce - c_cf` where it is 0. Otherwise the scan stops
at a byte with a bit of `flag & ~TTY_QUOTE` and, for `TTY_QUOTE`, where
`isset(c_cq, i)` holds after the `i++` of the byte's read. -/
def ndqb (flag : Int32) (s : Clist) : Option Nat :=
  if s.cc = 0 then some 0
  else if flag = 0 then do
    let cf ← s.cf
    let cl ← s.cl
    let count := sizeDiff cl cf
    let count := if count = 0 then sizeDiff s.cn cf else count
    pure (if count > intMax then 0 else count)
  else do
    let i ← s.cf
    if i > intMax then pure 0
    else do
      let mask := flag &&& ~~~ttyQuote
      let byteStops (j : Nat) : Option Bool := do
        let byte ← s.readByte j
        pure (byte.toUInt32.toInt32 &&& mask ≠ 0)
      let count ← if flag &&& ttyQuote ≠ 0 then
          ndqbScan s (fun j => do
            let stop ← byteStops j
            if stop then pure true
            else match s.cq with
              | none => none
              | some q => isset (qmem s.cn) q (j + 1)) s.cc i 0
        else ndqbScan s byteStops s.cc i 0
      pure (if count > intMax then 0 else count)

end Clist

end Xnu.Tty
