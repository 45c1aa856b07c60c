import Xnu.Bpf.Insn

namespace Xnu.Bpf

/-! Packets as the kernel hands them to `bpf_filter`: an optional contiguous
header followed by a chain of mbufs. -/

/-- An mbuf of a chain: the `m_len` bytes that start at `m_data`. -/
structure Mbuf where
  mData : List UInt8
  deriving DecidableEq, Repr

inductive BpfPacketType where
  | mbuf
  | other
  deriving DecidableEq, Repr

/-- `struct bpf_packet`. The header is empty when `bpfp_header` is `NULL`;
`bpfp_mbuf` is the first mbuf of the tapped packet, never `NULL`, and the
chain after it is linked by `m_next`. -/
structure BpfPacket where
  bpfpType : BpfPacketType
  bpfpHeader : List UInt8
  bpfpMbuf : List Mbuf
  mbuf_ne_nil : bpfpMbuf ≠ []

/-- The bytes of a chain, in `m_next` order. -/
def Mbuf.flatten (chain : List Mbuf) : List UInt8 :=
  (chain.map Mbuf.mData).flatten

/-- The logical packet: the header, then the chain. -/
def BpfPacket.bytes (bp : BpfPacket) : List UInt8 :=
  bp.bpfpHeader ++ Mbuf.flatten bp.bpfpMbuf

/-- The `while (k >= len)` walk of `m_hdr_offset` down the chain: the buffer
holding offset `k`, the offset inside it and the chain after it (`*m_p`). -/
def mChainOffset : List Mbuf → Nat → Option (List UInt8 × Nat × List Mbuf)
  | [], _ => none
  | m :: rest, k =>
    if k ≥ m.mData.length then mChainOffset rest (k - m.mData.length) else some (m.mData, k, rest)

/-- `m_hdr_offset`: past the header the chain is walked; inside it the header
itself is the buffer and `*m_p` is still the first mbuf. -/
def mHdrOffset (m : List Mbuf) (hdr : List UInt8) (k : Nat) : Option (List UInt8 × Nat × List Mbuf) :=
  if k ≥ hdr.length then mChainOffset m (k - hdr.length) else some (hdr, k, m)

/-- `get_word_from_buffers(cp, np, num_from_cp)` with `cp` at offset `k` of `cur`. -/
def getWordFromBuffers (cur : List UInt8) (k : Nat) (np : List UInt8) (numFromCp : Nat) :
    Option UInt32 :=
  match numFromCp with
  | 1 => do
    let c0 ← cur[k]?
    let n0 ← np[0]?
    let n1 ← np[1]?
    let n2 ← np[2]?
    pure (beWord c0 n0 n1 n2)
  | 2 => do
    let c0 ← cur[k]?
    let c1 ← cur[k + 1]?
    let n0 ← np[0]?
    let n1 ← np[1]?
    pure (beWord c0 c1 n0 n1)
  | _ => do
    let c0 ← cur[k]?
    let c1 ← cur[k + 1]?
    let c2 ← cur[k + 2]?
    let n0 ← np[0]?
    pure (beWord c0 c1 c2 n0)

/-! The mbuf readers return the value and the `*err` flag; `none` is a read
outside the bytes of every buffer. -/

/-- `m_xword`. -/
def mXword (m : List Mbuf) (hdr : List UInt8) (k : Nat) : Option (UInt32 × Bool) :=
  match mHdrOffset m hdr k with
  | none => some (0, true)
  | some (cur, k, next) =>
    if cur.length - k ≥ 4 then (readWord cur k).map fun v => (v, false)
    else
      match next with
      | [] => some (0, true)
      | n :: _ =>
        if n.mData.length + (cur.length - k) < 4 then some (0, true)
        else (getWordFromBuffers cur k n.mData (cur.length - k)).map fun v => (v, false)

/-- `m_xhalf`: the second byte is taken from the next mbuf without looking at
its `m_len`. -/
def mXhalf (m : List Mbuf) (hdr : List UInt8) (k : Nat) : Option (UInt16 × Bool) :=
  match mHdrOffset m hdr k with
  | none => some (0, true)
  | some (cur, k, next) =>
    if cur.length - k ≥ 2 then (readHalf cur k).map fun v => (v, false)
    else
      match next with
      | [] => some (0, true)
      | n :: _ => do
        let c0 ← cur[k]?
        let n0 ← n.mData[0]?
        pure (beHalf c0 n0, false)

/-- `m_xbyte`. -/
def mXbyte (m : List Mbuf) (hdr : List UInt8) (k : Nat) : Option (UInt8 × Bool) :=
  match mHdrOffset m hdr k with
  | none => some (0, true)
  | some (cur, k, _) => cur[k]?.map fun v => (v, false)

def bpXword (bp : BpfPacket) (k : UInt32) : Option (UInt32 × Bool) :=
  match bp.bpfpType with
  | .mbuf => mXword bp.bpfpMbuf bp.bpfpHeader k.toNat
  | .other => some (0, true)

def bpXhalf (bp : BpfPacket) (k : UInt32) : Option (UInt16 × Bool) :=
  match bp.bpfpType with
  | .mbuf => mXhalf bp.bpfpMbuf bp.bpfpHeader k.toNat
  | .other => some (0, true)

def bpXbyte (bp : BpfPacket) (k : UInt32) : Option (UInt8 × Bool) :=
  match bp.bpfpType with
  | .mbuf => mXbyte bp.bpfpMbuf bp.bpfpHeader k.toNat
  | .other => some (0, true)

/-! The interpreter. -/

/-- The `u_char *p` argument of `bpf_filter`: a contiguous buffer, or, in the
kernel with `buflen == 0`, a `struct bpf_packet`. -/
inductive BpfInput where
  | bytes (p : List UInt8)
  | packet (bp : BpfPacket)

/-- The contiguous loads `ntohl(*(int32_t *)(p + k))`, `EXTRACT_SHORT(&p[k])`
and `p[k]`; a packet is not a byte buffer. -/
def BpfInput.word : BpfInput → Nat → Option UInt32
  | .bytes p, k => readWord p k
  | .packet _, _ => none

def BpfInput.half : BpfInput → Nat → Option UInt16
  | .bytes p, k => readHalf p k
  | .packet _, _ => none

def BpfInput.byte : BpfInput → Nat → Option UInt8
  | .bytes p, k => p[k]?
  | .packet _, _ => none

/-- `bp_xword` and its siblings, reached with `p` taken as a `bpf_packet`. -/
def BpfInput.xword : BpfInput → UInt32 → Option (UInt32 × Bool)
  | .bytes _, _ => none
  | .packet bp, k => bpXword bp k

def BpfInput.xhalf : BpfInput → UInt32 → Option (UInt32 × Bool)
  | .bytes _, _ => none
  | .packet bp, k => (bpXhalf bp k).map fun r => (r.1.toUInt32, r.2)

def BpfInput.xbyte : BpfInput → UInt32 → Option (UInt32 × Bool)
  | .bytes _, _ => none
  | .packet bp, k => (bpXbyte bp k).map fun r => (r.1.toUInt32, r.2)

/-- The local state of `bpf_filter`: `pc`, the accumulator `A`, the index
register `X` and the scratch memory `mem[BPF_MEMWORDS]`. -/
structure BpfMachine where
  pc : Nat
  a : UInt32
  x : UInt32
  mem : Fin bpfMemwords → UInt32

/-- `A = 0, X = 0`, `bzero(mem)` and the first instruction. -/
def BpfMachine.init : BpfMachine := ⟨0, 0, 0, fun _ => 0⟩

/-- One `continue` of the loop: `++pc` after `off` more instructions. -/
def BpfMachine.advance (m : BpfMachine) (off : Nat) : BpfMachine := { m with pc := m.pc + 1 + off }

inductive BpfStep where
  | next (m : BpfMachine)
  | ret (v : UInt32)

/-- The kernel branch of a load that fails its bounds check: a contiguous buffer
rejects the packet; with `buflen == 0` the `bp_x*` reader is used and
`merr != 0` rejects. -/
def bpfFallback (buflen : UInt32) (read : Option (UInt32 × Bool)) (load : UInt32 → BpfMachine) :
    Option BpfStep :=
  if buflen ≠ 0 then some (.ret 0)
  else
    match read with
    | none => none
    | some (_, true) => some (.ret 0)
    | some (v, false) => some (.next (load v))

/-- A packet load: `outside` is the load's own bounds check against `buflen`,
`read` the contiguous access it guards and `load` the register it sets. -/
def bpfLoad (buflen : UInt32) (outside : Bool) (fallback : Option (UInt32 × Bool))
    (read : Option UInt32) (load : UInt32 → BpfMachine) : Option BpfStep :=
  if outside then bpfFallback buflen fallback load
  else read.map fun v => .next (load v)

def BpfAluOp.apply : BpfAluOp → UInt32 → UInt32 → UInt32
  | .add, a, b => a + b
  | .sub, a, b => a - b
  | .mul, a, b => a * b
  | .div, a, b => a / b
  | .and, a, b => a &&& b
  | .or, a, b => a ||| b
  | .lsh, a, b => a <<< b
  | .rsh, a, b => a >>> b

def BpfJmpOp.test : BpfJmpOp → UInt32 → UInt32 → Bool
  | .jgt, a, b => a > b
  | .jge, a, b => a ≥ b
  | .jeq, a, b => a = b
  | .jset, a, b => a &&& b ≠ 0

/-- One iteration of the `while (1)` loop of `bpf_filter` at `m.pc`. `none`
is a fault: an instruction fetched past the program, a packet byte read
outside the buffer, or a division by a zero constant. -/
def bpfStep (prog : List BpfInsn) (p : BpfInput) (wirelen buflen : UInt32) (m : BpfMachine) :
    Option BpfStep :=
  match prog[m.pc]? with
  | none => none
  | some insn =>
    match bpfDecode insn.code with
    | none => some (.ret 0)
    | some .retK => some (.ret insn.k)
    | some .retA => some (.ret m.a)
    | some (.ldAbs .w) =>
      bpfLoad buflen (insn.k > buflen || 4 > buflen - insn.k) (p.xword insn.k)
        (p.word insn.k.toNat) fun v => { m.advance 0 with a := v }
    | some (.ldAbs .h) =>
      bpfLoad buflen (insn.k > buflen || 2 > buflen - insn.k) (p.xhalf insn.k)
        ((p.half insn.k.toNat).map UInt16.toUInt32) fun v => { m.advance 0 with a := v }
    | some (.ldAbs .b) =>
      bpfLoad buflen (insn.k ≥ buflen) (p.xbyte insn.k)
        ((p.byte insn.k.toNat).map UInt8.toUInt32) fun v => { m.advance 0 with a := v }
    | some .ldLen => some (.next { m.advance 0 with a := wirelen })
    | some .ldxLen => some (.next { m.advance 0 with x := wirelen })
    | some (.ldInd .w) =>
      bpfLoad buflen (insn.k > buflen || m.x > buflen - insn.k || 4 > buflen - (m.x + insn.k))
        (p.xword (m.x + insn.k)) (p.word (m.x + insn.k).toNat) fun v => { m.advance 0 with a := v }
    | some (.ldInd .h) =>
      bpfLoad buflen (m.x > buflen || insn.k > buflen - m.x || 2 > buflen - (m.x + insn.k))
        (p.xhalf (m.x + insn.k)) ((p.half (m.x + insn.k).toNat).map UInt16.toUInt32)
        fun v => { m.advance 0 with a := v }
    | some (.ldInd .b) =>
      bpfLoad buflen (insn.k ≥ buflen || m.x ≥ buflen - insn.k)
        (p.xbyte (m.x + insn.k)) ((p.byte (m.x + insn.k).toNat).map UInt8.toUInt32)
        fun v => { m.advance 0 with a := v }
    | some .ldxMsh =>
      bpfLoad buflen (insn.k ≥ buflen) (p.xbyte insn.k) ((p.byte insn.k.toNat).map UInt8.toUInt32)
        fun v => { m.advance 0 with x := (v &&& 0xf) <<< (2 : UInt32) }
    | some .ldImm => some (.next { m.advance 0 with a := insn.k })
    | some .ldxImm => some (.next { m.advance 0 with x := insn.k })
    | some .ldMem =>
      if h : insn.k.toNat < bpfMemwords then some (.next { m.advance 0 with a := m.mem ⟨_, h⟩ })
      else some (.ret 0)
    | some .ldxMem =>
      if h : insn.k.toNat < bpfMemwords then some (.next { m.advance 0 with x := m.mem ⟨_, h⟩ })
      else some (.ret 0)
    | some .st =>
      if h : insn.k.toNat < bpfMemwords then
        some (.next { m.advance 0 with mem := Function.update m.mem ⟨_, h⟩ m.a })
      else some (.ret 0)
    | some .stx =>
      if h : insn.k.toNat < bpfMemwords then
        some (.next { m.advance 0 with mem := Function.update m.mem ⟨_, h⟩ m.x })
      else some (.ret 0)
    | some .ja => some (.next (m.advance insn.k.toNat))
    | some (.jmp op .k) =>
      some (.next (m.advance (if op.test m.a insn.k then insn.jt.toNat else insn.jf.toNat)))
    | some (.jmp op .x) =>
      some (.next (m.advance (if op.test m.a m.x then insn.jt.toNat else insn.jf.toNat)))
    | some (.alu .div .x) =>
      if m.x = 0 then some (.ret 0) else some (.next { m.advance 0 with a := m.a / m.x })
    | some (.alu .div .k) =>
      if insn.k = 0 then none else some (.next { m.advance 0 with a := m.a / insn.k })
    | some (.alu op .x) => some (.next { m.advance 0 with a := op.apply m.a m.x })
    | some (.alu op .k) => some (.next { m.advance 0 with a := op.apply m.a insn.k })
    | some .neg => some (.next { m.advance 0 with a := 0 - m.a })
    | some .tax => some (.next { m.advance 0 with x := m.a })
    | some .txa => some (.next { m.advance 0 with a := m.x })

/-- The loop of `bpf_filter` for at most `fuel` iterations. -/
def bpfRun (prog : List BpfInsn) (p : BpfInput) (wirelen buflen : UInt32) :
    Nat → BpfMachine → Option UInt32
  | 0, _ => none
  | fuel + 1, m =>
    match bpfStep prog p wirelen buflen m with
    | none => none
    | some (.ret v) => some v
    | some (.next m') => bpfRun prog p wirelen buflen fuel m'

/-- `bpf_filter(pc, p, wirelen, buflen)`. A `NULL` program accepts the whole
packet. Every iteration moves `pc` forward, so `len + 1` iterations reach a
return or a fetch past the end. -/
def bpfFilter (pc : Option (List BpfInsn)) (p : BpfInput) (wirelen buflen : UInt32) :
    Option UInt32 :=
  match pc with
  | none => some 0xFFFFFFFF
  | some prog => bpfRun prog p wirelen buflen (prog.length + 1) BpfMachine.init

end Xnu.Bpf
