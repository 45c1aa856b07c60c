import Mathlib

namespace Xnu.IpReass

/-! `ip_reass` of `bsd/netinet/ip_input.c`. The fragments of a datagram wait
in a queue, sorted by offset, until they cover it from offset 0 to a last
fragment without `IP_MF`. Header fields are in host order, as `ip_input` leaves
them. The partial-checksum bookkeeping (`csum`, `ipq_csum`, `ipq_csum_flags`)
and the statistics change no queue and no byte, and are left out. -/

/-- The fields of `struct ip` that `ip_reass` reads or writes. -/
structure Ip where
  vhl : UInt8
  tos : UInt8
  len : UInt16
  id : UInt16
  off : UInt16
  p : UInt8
  src : UInt32
  dst : UInt32
deriving DecidableEq, Repr

/-- A packet in an mbuf chain: its header, `M_FRAG` of the first mbuf, and
the bytes after the header. -/
structure Packet where
  ip : Ip
  mFrag : Bool
  payload : List UInt8
deriving DecidableEq, Repr

def ipMf : UInt16 := 0x2000
def ipMaxpacket : Nat := 65535
def iptosEcnMask : UInt8 := 0x03
def iptosEcnCe : UInt8 := 0x03
def iptosEcnNotect : UInt8 := 0x00
def ipfragttl : UInt8 := 30
def ipreassNhash : Nat := 64

/-- `IP_VHL_HL(ip_vhl) << 2`. -/
def Ip.hlen (ip : Ip) : Nat := (ip.vhl &&& 0x0f).toNat <<< 2

/-- `IPREASS_HASH(ip_src.s_addr, ip_id)`. -/
def ipreassHash (src : UInt32) (id : UInt16) : Nat :=
  let low : UInt32 := src &&& 0xF
  let high : UInt32 := ((src >>> 8) &&& 0xF) <<< 4
  (((low ||| high) ^^^ id.toUInt32) &&& 63).toNat

/-- `struct ipq`. -/
structure Ipq where
  ttl : UInt8
  p : UInt8
  id : UInt16
  src : UInt32
  dst : UInt32
  frags : List Packet
  nfrags : UInt32
deriving DecidableEq, Repr

/-- The queue heads `ipq[IPREASS_NHASH]`, each `TAILQ` listed from its head,
and the globals the routine reads. -/
structure Reass where
  ipq : Nat → List Ipq
  nipq : UInt32
  maxnipq : Int32
  maxfragsperpacket : UInt32

/-- The test of `TAILQ_FOREACH(fp, head, ipq_list)`. -/
def Ipq.matches (fp : Ipq) (ip : Ip) : Bool :=
  ip.id == fp.id && ip.src == fp.src && ip.dst == fp.dst && ip.p == fp.p

/-- The position of this datagram's queue in its bucket. -/
def findQueue (head : List Ipq) (ip : Ip) : Option Nat := head.findIdx? (·.matches ip)

def setQueue (s : Reass) (hash k : Nat) (fp : Ipq) : Reass :=
  { s with ipq := Function.update s.ipq hash ((s.ipq hash).set k fp) }

/-- `frag_freef(head, fp)` for the queue at position `k` of bucket `hash`. -/
def fragFreef (s : Reass) (hash k : Nat) : Reass :=
  { s with ipq := Function.update s.ipq hash ((s.ipq hash).eraseIdx k), nipq := s.nipq - 1 }

/-- The trim before a new queue is made: over `maxnipq` queues, free the last
queue of this bucket, or else of the first bucket that has one. -/
def trimQueues (s : Reass) (hash : Nat) : Reass :=
  if s.nipq > s.maxnipq.toUInt32 ∧ 0 < s.maxnipq then
    if s.ipq hash ≠ [] then fragFreef s hash ((s.ipq hash).length - 1)
    else
      match (List.range ipreassNhash).find? (fun i => s.ipq i ≠ []) with
      | some i => fragFreef s i ((s.ipq i).length - 1)
      | none => s
  else s

/-- `ip->ip_len -= hlen`, the test of `IP_MF` and `ip->ip_off <<= 3`. `none`
is a fragment with `IP_MF` whose data length is zero or not a multiple of 8. -/
def prepare (m : Packet) : Option Packet :=
  let ip := { m.ip with len := m.ip.len - m.ip.hlen.toUInt16 }
  if ip.off &&& ipMf ≠ 0 then
    if ip.len = 0 ∨ ip.len &&& 7 ≠ 0 then none
    else some { m with ip := { ip with off := ip.off <<< 3 }, mFrag := true }
  else some { m with ip := { ip with off := ip.off <<< 3 }, mFrag := false }

/-- The queue made for the first fragment to arrive. -/
def newQueue (m : Packet) : Ipq := ⟨ipfragttl, m.ip.p, m.ip.id, m.ip.src, m.ip.dst, [m], 1⟩

/-- The ECN test against the first fragment of the queue: `none` drops the new
fragment; a new CE mark is copied onto the first fragment. -/
def ecnCheck (first m : Packet) : Option Packet :=
  let ecn := m.ip.tos &&& iptosEcnMask
  let ecn0 := first.ip.tos &&& iptosEcnMask
  if ecn = iptosEcnCe then
    if ecn0 = iptosEcnNotect then none
    else if ecn0 ≠ iptosEcnCe then some { first with ip := { first.ip with tos := first.ip.tos ||| iptosEcnCe } }
    else some first
  else if ecn = iptosEcnNotect ∧ ecn0 ≠ iptosEcnNotect then none
  else some first

/-- With a fragment `p` before the new one: `i` bytes of the new one that `p`
already holds are cut off its front, or the new one is dropped when `p` holds
it all. -/
def trimByPred (p : Option Packet) (m : Packet) : Option Packet :=
  match p with
  | none => some m
  | some p =>
    let i : Int := p.ip.off.toNat + p.ip.len.toNat - m.ip.off.toNat
    if i > 0 then
      if i ≥ m.ip.len.toNat then none
      else some { m with
        ip := { m.ip with off := m.ip.off + i.toNat.toUInt16, len := m.ip.len - i.toNat.toUInt16 }
        payload := m.payload.drop i.toNat }
    else some m

/-- The loop over the fragments after the new one: the first it reaches into
loses its front, those it covers are dequeued. The count is of those dequeued. -/
def trimSuccs (m : Packet) : List Packet → List Packet × Nat
  | [] => ([], 0)
  | q :: rest =>
    if m.ip.off.toNat + m.ip.len.toNat > q.ip.off.toNat then
      let i := m.ip.off.toNat + m.ip.len.toNat - q.ip.off.toNat
      if i < q.ip.len.toNat then
        ({ q with
          ip := { q.ip with len := q.ip.len - i.toUInt16, off := q.ip.off + i.toUInt16 }
          payload := q.payload.drop i } :: rest, 0)
      else ((trimSuccs m rest).1, (trimSuccs m rest).2 + 1)
    else (q :: rest, 0)

/-- Link the new fragment after `p` and run the loop over those after it. -/
def placeFrag (p : Option Packet) (m : Packet) (after : List Packet) :
    Option (List Packet × Nat) :=
  (trimByPred p m).map fun m' => (m' :: (trimSuccs m' after).1, (trimSuccs m' after).2)

/-- From `for (p = NULL, q = fp->ipq_frags; q; p = q, q = q->m_nextpkt)` to
the end of the loop over the fragments after the new one. -/
def insertFrag (p : Option Packet) (m : Packet) : List Packet → Option (List Packet × Nat)
  | [] => placeFrag p m []
  | q :: rest =>
    if q.ip.off > m.ip.off then placeFrag p m (q :: rest)
    else (insertFrag (some q) m rest).map fun r => (q :: r.1, r.2)

/-- `next` after the loop that checks that the fragments follow one another
from offset 0; `none` at the first gap. -/
def scanNext (next : Nat) : List Packet → Option Nat
  | [] => some next
  | q :: rest => if q.ip.off.toNat ≠ next then none else scanNext (next + q.ip.len.toNat) rest

/-- The datagram the first fragment heads, the others concatenated to it. -/
def reassemble (fp : Ipq) (first : Packet) (next : Nat) : Packet :=
  { first with
    ip := { first.ip with len := (first.ip.hlen + next).toUInt16, src := fp.src, dst := fp.dst }
    payload := fp.frags.flatMap (·.payload) }

/-- The check for complete reassembly and the per-packet fragment limit. -/
def complete (s : Reass) (hash k : Nat) (fp : Ipq) : Reass × Option Packet :=
  let incomplete :=
    if fp.nfrags > s.maxfragsperpacket then (fragFreef s hash k, none)
    else (setQueue s hash k fp, none)
  match scanNext 0 fp.frags, fp.frags.getLast?, fp.frags.head? with
  | some next, some last, some first =>
    if last.mFrag then incomplete
    else if next + first.ip.hlen > ipMaxpacket then (fragFreef s hash k, none)
    else (fragFreef s hash k, some (reassemble fp first next))
  | _, _, _ => incomplete

/-- A fragment added to the queue at position `k` of bucket `hash`. A queue is
never empty: it is made with one fragment and loses only fragments after the
new one. -/
def addFragment (s : Reass) (hash k : Nat) (m : Packet) : Reass × Option Packet :=
  match (s.ipq hash)[k]? with
  | none => (s, none)
  | some fp =>
    match fp.frags with
    | [] => (s, none)
    | first :: others =>
      -- `ipq_nfrags++`, undone at `dropfrag:`
      match ecnCheck first m with
      | none => (s, none)
      | some first' =>
        let fp := { fp with frags := first' :: others, nfrags := fp.nfrags + 1 }
        match insertFrag none m fp.frags with
        | none => (setQueue s hash k { fp with nfrags := fp.nfrags - 1 }, none)
        | some (frags, dropped) =>
          complete s hash k { fp with frags := frags, nfrags := fp.nfrags - dropped.toUInt32 }

def ipReass (s : Reass) (m : Packet) (allocOk : Bool) : Reass × Option Packet :=
  if s.maxnipq = 0 ∨ s.maxfragsperpacket = 0 then (s, none)
  else
    let hash := ipreassHash m.ip.src m.ip.id
    let found := findQueue (s.ipq hash) m.ip
    let s := if found.isNone then trimQueues s hash else s
    match prepare m with
    | none => (s, none)
    | some m =>
      match found with
      | none =>
        -- `ipq_alloc(M_DONTWAIT)` may fail
        if allocOk then
          ({ s with ipq := Function.update s.ipq hash (newQueue m :: s.ipq hash), nipq := s.nipq + 1 },
            none)
        else (s, none)
      | some k => addFragment s hash k m

/-- The loop over one bucket in `frag_timeout`: every queue's `ipq_ttl` is
lowered, and those it brings to 0 are freed. The queues kept, and how many
were freed. -/
def ageBucket : List Ipq → List Ipq × Nat
  | [] => ([], 0)
  | fp :: rest =>
    if fp.ttl - 1 = 0 then ((ageBucket rest).1, (ageBucket rest).2 + 1)
    else ({ fp with ttl := fp.ttl - 1 } :: (ageBucket rest).1, (ageBucket rest).2)

/-- The pass of `frag_timeout` over bucket `i`, each free making `nipq--`. -/
def ageStep (s : Reass) (i : Nat) : Reass :=
  { s with ipq := Function.update s.ipq i (ageBucket (s.ipq i)).1, nipq := s.nipq - (ageBucket (s.ipq i)).2.toUInt32 }

/-- The loop `while (nipq > maxnipq && !TAILQ_EMPTY(&ipq[i]))`, freeing from
the head of the bucket. The queues kept and `nipq`. -/
def drainBucket (maxnipq : UInt32) : List Ipq → UInt32 → List Ipq × UInt32
  | [], nipq => ([], nipq)
  | fp :: rest, nipq => if nipq > maxnipq then drainBucket maxnipq rest (nipq - 1) else (fp :: rest, nipq)

/-- The drain of bucket `i` down to `maxnipq`. -/
def drainStep (s : Reass) (i : Nat) : Reass :=
  { s with
    ipq := Function.update s.ipq i (drainBucket s.maxnipq.toUInt32 (s.ipq i) s.nipq).1
    nipq := (drainBucket s.maxnipq.toUInt32 (s.ipq i) s.nipq).2 }

/-- `frag_timeout`: the buckets aged in turn, then, where `nipq` is over a
`maxnipq` that is not negative, drained in turn. -/
def fragTimeout (s : Reass) : Reass :=
  let aged := (List.range ipreassNhash).foldl ageStep s
  if 0 ≤ aged.maxnipq ∧ aged.nipq > aged.maxnipq.toUInt32 then (List.range ipreassNhash).foldl drainStep aged
  else aged

/-- `ip_reass` called on each fragment in turn, each with whether its
`ipq_alloc` would succeed. -/
def run (s : Reass) : List (Packet × Bool) → Reass × List (Option Packet)
  | [] => (s, [])
  | (m, allocOk) :: rest =>
    let r := ipReass s m allocOk
    ((run r.1 rest).1, r.2 :: (run r.1 rest).2)

end Xnu.IpReass
