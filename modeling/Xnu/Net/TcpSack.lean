import Mathlib

namespace Xnu.TcpSack

/-! The receiver's SACK report of `bsd/netinet/tcp_sack.c`: the blocks of
out-of-order data in `tp->sackblks[0 .. rcv_numsacks)`, rebuilt by
`tcp_update_sack_list` for each segment received. The stretch-ack, forced-ack
and `acc_iaj` resets at its end change no block and are left out. -/

/-- `SEQ_LT(a, b)`: `(int)((a) - (b)) < 0`. -/
def seqLt (a b : UInt32) : Bool := (a - b).toInt32 < 0

/-- `SEQ_LEQ(a, b)`: `(int)((a) - (b)) <= 0`. -/
def seqLeq (a b : UInt32) : Bool := (a - b).toInt32 ≤ 0

/-- `SEQ_GT(a, b)`: `(int)((a) - (b)) > 0`. -/
def seqGt (a b : UInt32) : Bool := (a - b).toInt32 > 0

/-- `SEQ_GEQ(a, b)`: `(int)((a) - (b)) >= 0`. -/
def seqGeq (a b : UInt32) : Bool := (a - b).toInt32 ≥ 0

/-- `MAX_SACK_BLKS`, the size of `tp->sackblks` and of `saved_blks`. -/
def maxSackBlks : Nat := 6

/-- `struct sackblk`; `stop` is the field `end`. -/
structure Sackblk where
  start : UInt32
  stop : UInt32
deriving DecidableEq, Repr

/-- The fields of `struct tcpcb` the report reads and writes: `rcv_nxt`, and
`sackblks[0 .. rcv_numsacks)` as a list of `rcv_numsacks` blocks. -/
structure Tcpcb where
  rcvNxt : UInt32
  sackblks : List Sackblk
deriving DecidableEq, Repr

/-- The loop over `sackblks[0 .. rcv_numsacks)`: a block that is empty or not
past `rcv_nxt` is discarded, one that overlaps or meets `head_blk` is merged
into it, and the others are saved in order. `head_blk` and `saved_blks`. -/
def mergeLoop (rcvNxt : UInt32) : Sackblk → List Sackblk → Sackblk × List Sackblk
  | head, [] => (head, [])
  | head, b :: rest =>
    if seqGeq b.start b.stop || seqLeq b.start rcvNxt then mergeLoop rcvNxt head rest
    else if seqLeq head.start b.stop && seqGeq head.stop b.start then
      mergeLoop rcvNxt
        ⟨if seqGt head.start b.start then b.start else head.start,
          if seqLt head.stop b.stop then b.stop else head.stop⟩ rest
    else ((mergeLoop rcvNxt head rest).1, b :: (mergeLoop rcvNxt head rest).2)

/-- `tcp_update_sack_list(tp, rcv_start, rcv_end)`: the merged block goes first
when it starts past `rcv_nxt`, the last saved block giving way when all
`MAX_SACK_BLKS` were saved; the saved blocks follow. -/
def tcpUpdateSackList (tp : Tcpcb) (rcvStart rcvEnd : UInt32) : Tcpcb :=
  let merged := mergeLoop tp.rcvNxt ⟨rcvStart, rcvEnd⟩ tp.sackblks
  if seqGt merged.1.start tp.rcvNxt then
    { tp with sackblks := merged.1 :: if merged.2.length ≥ maxSackBlks then merged.2.dropLast else merged.2 }
  else { tp with sackblks := merged.2 }

@[simp] theorem tcpUpdateSackList_rcvNxt (tp : Tcpcb) (rcvStart rcvEnd : UInt32) :
    (tcpUpdateSackList tp rcvStart rcvEnd).rcvNxt = tp.rcvNxt := by
  unfold tcpUpdateSackList
  dsimp only
  split <;> rfl

/-- `tcp_clean_sackreport(tp)`. -/
def tcpCleanSackreport (tp : Tcpcb) : Tcpcb := { tp with sackblks := [] }

end Xnu.TcpSack
