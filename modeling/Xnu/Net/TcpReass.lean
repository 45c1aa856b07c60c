import Mathlib

namespace Xnu.TcpReass

/-! `tcp_reass` of `bsd/netinet/tcp_input.c`: segments that arrive out of order
wait in `t_segq`, sorted by `th_seq`, and `present` hands the data at `rcv_nxt`
on to the socket. The DSACK bookkeeping (`t_dsack_lseq`, `t_dsack_rseq`), the
statistics, the stretch-ack and forced-ack resets and `TF_LAST_IS_PSH` change no
queue, no sequence number and no byte handed on, and are left out. -/

/-- The fields of `struct tcphdr` that `tcp_reass` reads or writes. -/
structure Tcphdr where
  seq : UInt32
  flags : UInt8
deriving DecidableEq, Repr

def thFin : UInt8 := 0x01

/-- `struct tseg_qent`: the segment's header, `tqe_len` and the bytes of
`tqe_m`. -/
structure Tqe where
  th : Tcphdr
  len : Int32
  data : List UInt8
deriving DecidableEq, Repr

/-- The fields of `struct tcpcb` that `tcp_reass` reads or writes. -/
structure Tcpcb where
  rcvNxt : UInt32
  segq : List Tqe
  reassqlen : UInt16
  -- `TF_REASS_INPROG` of `t_flagsext`
  reassInprog : Bool
  -- `TCPS_HAVEESTABLISHED(tp->t_state)`
  haveEstablished : Bool
deriving DecidableEq, Repr

/-- What `tcp_reass` reads of the world outside the connection at one call. -/
structure Env where
  -- `mbuf_class_under_pressure` holds of some mbuf of the segment's chain
  underPressure : Bool
  hiwat : UInt32
  autorcvbufMax : UInt32
  -- `zalloc(tcp_reass_zone)` returns an entry
  allocOk : Bool
  -- `SS_CANTRCVMORE` of `so->so_state`
  cantRcvMore : Bool
deriving DecidableEq, Repr

/-- `SEQ_GT(a, b)`: `(int)((a) - (b)) > 0`. -/
def seqGt (a b : UInt32) : Bool := (a - b).toInt32 > 0

/-- `qlimit = min(max(100, so->so_rcv.sb_hiwat >> 10), (tcp_autorcvbuf_max >> 10))`,
stored in a `u_int16_t`. -/
def qlimit (env : Env) : UInt16 := (min (max (100 : UInt32) (env.hiwat >>> 10)) (env.autorcvbufMax >>> 10)).toUInt16

/-- With an entry `p` before the new segment: `i` bytes of the new one that
`p` already holds are cut off its front, or the new one is dropped when `p`
holds it all. -/
def trimByPred (p : Option Tqe) (te : Tqe) : Option Tqe :=
  match p with
  | none => some te
  | some p =>
    -- conversion to int (in i) handles seq wraparound
    let i := (p.th.seq + p.len.toUInt32 - te.th.seq).toInt32
    if i > 0 then
      if i ≥ te.len then none
      else some ⟨{ te.th with seq := te.th.seq + i.toUInt32 }, te.len - i, te.data.drop i.toInt.toNat⟩
    else some te

/-- The loop over the entries after the new one: the first it reaches into
loses its front, those it covers are dequeued. The count is of those dequeued. -/
def trimSuccs (te : Tqe) : List Tqe → List Tqe × Nat
  | [] => ([], 0)
  | q :: rest =>
    let i := (te.th.seq + te.len.toUInt32 - q.th.seq).toInt32
    if i ≤ 0 then (q :: rest, 0)
    else if i < q.len then
      (⟨{ q.th with seq := q.th.seq + i.toUInt32 }, q.len - i, q.data.drop i.toInt.toNat⟩ :: rest, 0)
    else ((trimSuccs te rest).1, (trimSuccs te rest).2 + 1)

/-- Link the new entry after `p` and run the loop over those after it. -/
def placeSeg (p : Option Tqe) (te : Tqe) (after : List Tqe) : Option (List Tqe × Nat × Int32) :=
  (trimByPred p te).map fun te' => (te' :: (trimSuccs te' after).1, (trimSuccs te' after).2, te'.len)

/-- From `LIST_FOREACH(q, &tp->t_segq, tqe_q)` to `LIST_INSERT_AFTER`: the
queue, the number of entries dequeued and `*tlenp`; `none` when the entry
before the new one holds all of it. -/
def insertSeg (p : Option Tqe) (te : Tqe) : List Tqe → Option (List Tqe × Nat × Int32)
  | [] => placeSeg p te []
  | q :: rest =>
    if seqGt q.th.seq te.th.seq then placeSeg p te (q :: rest)
    else (insertSeg (some q) te rest).map fun r => (q :: r.1, r.2)

/-- Where the `do ... while` loop of `present` leaves `rcv_nxt`, `t_reassqlen`
and the queue, the flags it returns and the bytes it appended to the socket
buffer. -/
structure Presented where
  rcvNxt : UInt32
  reassqlen : UInt16
  segq : List Tqe
  flags : UInt8
  appended : List UInt8
deriving DecidableEq, Repr

/-- The loop of `present`, taking entries from the head while they start at
`rcv_nxt`. With `SS_CANTRCVMORE` an entry's mbufs are freed instead of
appended. -/
def presentLoop (cantRcvMore : Bool) (rcvNxt : UInt32) (reassqlen : UInt16) (flags : UInt8) :
    List Tqe → Presented
  | [] => ⟨rcvNxt, reassqlen, [], flags, []⟩
  | q :: rest =>
    if q.th.seq = rcvNxt then
      let r := presentLoop cantRcvMore (rcvNxt + q.len.toUInt32) (reassqlen - 1) (q.th.flags &&& thFin) rest
      { r with appended := (if cantRcvMore then [] else q.data) ++ r.appended }
    else ⟨rcvNxt, reassqlen, q :: rest, flags, []⟩

/-- `present:`. `TF_REASS_INPROG` is set around the loop and cleared after it. -/
def present (tp : Tcpcb) (cantRcvMore : Bool) : Tcpcb × UInt8 × List UInt8 :=
  if !tp.haveEstablished then (tp, 0, [])
  else
    match tp.segq with
    | [] => (tp, 0, [])
    | q :: _ =>
      if q.th.seq ≠ tp.rcvNxt then (tp, 0, [])
      else if tp.reassInprog then (tp, 0, [])
      else
        let r := presentLoop cantRcvMore tp.rcvNxt tp.reassqlen 0 tp.segq
        ({ tp with rcvNxt := r.rcvNxt, reassqlen := r.reassqlen, segq := r.segq }, r.flags, r.appended)

/-- `tcp_reass(tp, th, tlenp, m, ifp, dowakeup)` with `*tlenp = tlen` and the
bytes of `m`: the connection after it, the flags it returns, `*tlenp` after it
and the bytes it appended to the socket buffer. -/
def tcpReass (tp : Tcpcb) (th : Tcphdr) (tlen : Int32) (data : List UInt8) (env : Env) :
    Tcpcb × UInt8 × Int32 × List UInt8 :=
  if th.seq ≠ tp.rcvNxt ∧ env.underPressure then (tp, 0, 0, [])
  else if th.seq ≠ tp.rcvNxt ∧ tp.reassqlen.toNat + 1 ≥ (qlimit env).toNat then (tp, 0, 0, [])
  else if !env.allocOk then (tp, 0, tlen, [])
  else
    let tp := { tp with reassqlen := tp.reassqlen + 1 }
    match insertSeg none ⟨th, tlen, data⟩ tp.segq with
    | none =>
      -- the entry before holds all of it: `goto present`
      let r := present { tp with reassqlen := tp.reassqlen - 1 } env.cantRcvMore
      (r.1, r.2.1, tlen, r.2.2)
    | some (segq, dropped, tlen') =>
      let r := present { tp with segq := segq, reassqlen := tp.reassqlen - dropped.toUInt16 } env.cantRcvMore
      (r.1, r.2.1, tlen', r.2.2)

end Xnu.TcpReass
