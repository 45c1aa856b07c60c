import Xnu.Lib.Reassembly
import Xnu.Lib.Serial
import Xnu.Net.TcpReass

namespace Xnu.TcpReass

/-! The queue of `tcp_reass` is a reassembly queue in the sense of
`Xnu.Lib.Reassembly`: an entry is the piece of the stream at the position its
`th_seq` stands for, counted from `rcv_nxt`. The `int` conversions of 32-bit
differences agree with those positions as long as each entry starts less than
`2^31` past `rcv_nxt` or right where the entry before it stops, and the new
segment starts less than `2^31` past `rcv_nxt`. -/

/-- An entry as a piece of the stream, `rcv_nxt` standing at position `base`. -/
def Tqe.toPiece (rcvNxt : UInt32) (base : Nat) (q : Tqe) : Piece UInt8 UInt8 :=
  ⟨base + (q.th.seq - rcvNxt).toNat, q.data, q.th.flags⟩

/-- An entry whose `tqe_len` counts its bytes, the last of which lies less than
`2^32` past `rcv_nxt`. -/
structure TqeOk (rcvNxt : UInt32) (q : Tqe) : Prop where
  len_eq : q.len.toInt = q.data.length
  ends : (q.th.seq - rcvNxt).toNat + q.data.length < 2 ^ 32

section Arith

theorem TqeOk.length_lt {rcvNxt : UInt32} {q : Tqe} (ok : TqeOk rcvNxt q) : q.data.length < 2 ^ 31 := by
  have := q.len.toInt_lt
  have := ok.len_eq
  omega

theorem TqeOk.len_toUInt32 {rcvNxt : UInt32} {q : Tqe} (ok : TqeOk rcvNxt q) :
    q.len.toUInt32.toNat = q.data.length := by
  rw [Int32.toNat_toUInt32_of_nonneg q.len (by rw [ok.len_eq]; omega), ok.len_eq, Int.toNat_natCast]

theorem toPiece_stop {rcvNxt : UInt32} {base : Nat} (q : Tqe) :
    (q.toPiece rcvNxt base).stop = base + (q.th.seq - rcvNxt).toNat + q.data.length := rfl

/-- `SEQ_GT(a, b)` compares the positions `a` and `b` stand for, measured from
any `r`, when they are less than `2^31` apart. -/
theorem seqGt_iff (a b r : UInt32) (lo : -2 ^ 31 ≤ ((a - r).toNat : Int) - (b - r).toNat)
    (hi : ((a - r).toNat : Int) - (b - r).toNat < 2 ^ 31) :
    seqGt a b = true ↔ (b - r).toNat < (a - r).toNat := by
  have diff := UInt32.toInt_toInt32_add_sub a 0 b r (by simpa using lo) (by simpa using hi)
  rw [UInt32.add_zero] at diff
  simp only [seqGt, decide_eq_true_eq, gt_iff_lt, Int32.lt_iff_toInt_lt, diff]
  simp

/-- `seq + n` as the position `n` past the one `seq` stands for. -/
theorem toNat_add_sub {seq r n : UInt32} (fits : (seq - r).toNat + n.toNat < 2 ^ 32) :
    (seq + n - r).toNat = (seq - r).toNat + n.toNat := by
  simp only [UInt32.toNat_sub, UInt32.toNat_add] at fits ⊢
  have := seq.toNat_lt
  have := r.toNat_lt
  have := n.toNat_lt
  omega

theorem toNat_toUInt32_of_lt {n : Nat} (small : n < 2 ^ 32) : n.toUInt32.toNat = n := by
  rw [Nat.toUInt32, UInt32.toNat_ofNat']
  exact Nat.mod_eq_of_lt small

/-- `rcv_nxt == th_seq` says that the segment sits at the position counted. -/
theorem eq_add_toUInt32_iff (q r : UInt32) {n : Nat} (small : n < 2 ^ 32) :
    q = r + n.toUInt32 ↔ (q - r).toNat = n := by
  rw [← UInt32.toNat_inj, UInt32.toNat_add, UInt32.toNat_sub, toNat_toUInt32_of_lt small]
  have := q.toNat_lt
  have := r.toNat_lt
  omega

theorem add_toUInt32_add (r : UInt32) (a b : Nat) : r + a.toUInt32 + b.toUInt32 = r + (a + b).toUInt32 := by
  rw [← UInt32.toNat_inj]
  simp only [UInt32.toNat_add, Nat.toUInt32, UInt32.toNat_ofNat']
  omega

theorem sub_one_sub (a : UInt16) (n : Nat) : a - 1 - n.toUInt16 = a - (n + 1).toUInt16 := by
  rw [← UInt16.toNat_inj]
  have one : (1 : UInt16).toNat = 1 := rfl
  have := a.toNat_lt
  simp only [UInt16.toNat_sub, Nat.toUInt16, UInt16.toNat_ofNat', one]
  omega

/-- `t_reassqlen + 1 - dropped - taken`, when none of it wraps. -/
theorem toNat_add_one_sub_sub (a : UInt16) {n t : Nat} (room : a.toNat + 1 < 2 ^ 16) (le : n + t ≤ a.toNat + 1) :
    (a + 1 - n.toUInt16 - t.toUInt16).toNat = a.toNat + 1 - n - t := by
  have one : (1 : UInt16).toNat = 1 := rfl
  simp only [UInt16.toNat_sub, UInt16.toNat_add, Nat.toUInt16, UInt16.toNat_ofNat', one]
  omega

theorem TqeOk.len_toUInt32_eq {rcvNxt : UInt32} {q : Tqe} (ok : TqeOk rcvNxt q) :
    q.len.toUInt32 = q.data.length.toUInt32 := by
  rw [← UInt32.toNat_inj, ok.len_toUInt32, toNat_toUInt32_of_lt (by have := ok.length_lt; omega)]

end Arith

section Refines

variable (rcvNxt : UInt32) (base : Nat)

/-- Where the entry before the walk's position stops, `base` before the first. -/
def reach : Option Tqe → Nat
  | none => base
  | some p => (p.toPiece rcvNxt base).stop

theorem trimByPred_toPiece (te : Tqe) (ok : TqeOk rcvNxt te) (near : (te.th.seq - rcvNxt).toNat < 2 ^ 31)
    (p : Option Tqe)
    (pOk : ∀ p0, p = some p0 → TqeOk rcvNxt p0 ∧ (p0.th.seq - rcvNxt).toNat ≤ (te.th.seq - rcvNxt).toNat) :
    (trimByPred p te).map (Tqe.toPiece rcvNxt base) = trimPred (reach rcvNxt base p) (te.toPiece rcvNxt base) ∧
      ∀ te', trimByPred p te = some te' →
        TqeOk rcvNxt te' ∧ (te'.toPiece rcvNxt base).stop = (te.toPiece rcvNxt base).stop := by
  cases p with
  | none =>
    refine ⟨?_, fun te' kept => ?_⟩
    · simp [trimByPred, trimPred, reach, Tqe.toPiece]
    · cases kept
      exact ⟨ok, rfl⟩
  | some p0 =>
    obtain ⟨p0Ok, before⟩ := pOk p0 rfl
    have p0Len := p0Ok.length_lt
    have p0Ends := p0Ok.ends
    have teLen := ok.length_lt
    -- the overlap `i`, in positions
    have overlap : (p0.th.seq + p0.len.toUInt32 - te.th.seq).toInt32.toInt =
        ((p0.th.seq - rcvNxt).toNat + p0.data.length : Int) - (te.th.seq - rcvNxt).toNat := by
      rw [UInt32.toInt_toInt32_add_sub _ _ _ rcvNxt (by rw [p0Ok.len_toUInt32]; omega)
        (by rw [p0Ok.len_toUInt32]; omega), p0Ok.len_toUInt32]
    have reachEq : reach rcvNxt base (some p0) = base + (p0.th.seq - rcvNxt).toNat + p0.data.length := rfl
    have start : (te.toPiece rcvNxt base).start = base + (te.th.seq - rcvNxt).toNat := rfl
    have dataLen : (te.toPiece rcvNxt base).data.length = te.data.length := rfl
    dsimp only [trimByPred]
    unfold trimPred
    rw [reachEq, start, dataLen]
    by_cases reaches : (te.th.seq - rcvNxt).toNat < (p0.th.seq - rcvNxt).toNat + p0.data.length
    · have positive : (p0.th.seq + p0.len.toUInt32 - te.th.seq).toInt32 > 0 := by
        rw [gt_iff_lt, Int32.lt_iff_toInt_lt, overlap]
        simp only [Int32.toInt_zero]
        omega
      rw [if_pos positive, if_pos (show base + (te.th.seq - rcvNxt).toNat <
        base + (p0.th.seq - rcvNxt).toNat + p0.data.length by omega)]
      by_cases covered : te.data.length ≤ (p0.th.seq - rcvNxt).toNat + p0.data.length - (te.th.seq - rcvNxt).toNat
      · have drop : (p0.th.seq + p0.len.toUInt32 - te.th.seq).toInt32 ≥ te.len := by
          rw [ge_iff_le, Int32.le_iff_toInt_le, overlap, ok.len_eq]
          omega
        rw [if_pos drop, if_pos (show te.data.length ≤ base + (p0.th.seq - rcvNxt).toNat + p0.data.length -
          (base + (te.th.seq - rcvNxt).toNat) by omega)]
        exact ⟨rfl, fun te' kept => by cases kept⟩
      · -- the new segment loses the bytes `p0` holds
        have keep : ¬(p0.th.seq + p0.len.toUInt32 - te.th.seq).toInt32 ≥ te.len := by
          rw [ge_iff_le, Int32.le_iff_toInt_le, overlap, ok.len_eq]
          omega
        rw [if_neg keep, if_neg (show ¬te.data.length ≤ base + (p0.th.seq - rcvNxt).toNat + p0.data.length -
          (base + (te.th.seq - rcvNxt).toNat) by omega)]
        generalize hi : (p0.th.seq + p0.len.toUInt32 - te.th.seq).toInt32 = i at overlap
        have cut : i.toInt.toNat = (p0.th.seq - rcvNxt).toNat + p0.data.length - (te.th.seq - rcvNxt).toNat := by
          omega
        have iNat : i.toUInt32.toNat = i.toInt.toNat := Int32.toNat_toUInt32_of_nonneg i (by omega)
        have seq' : (te.th.seq + i.toUInt32 - rcvNxt).toNat = (te.th.seq - rcvNxt).toNat + i.toInt.toNat := by
          rw [toNat_add_sub (by omega), iNat]
        have len' : (te.len - i).toInt = te.len.toInt - i.toInt :=
          Int32.toInt_sub_of_range te.len i (by rw [ok.len_eq, overlap]; omega)
            (by rw [ok.len_eq, overlap]; omega)
        refine ⟨?_, fun te' kept => ?_⟩
        · simp only [Option.map_some, Tqe.toPiece, Piece.trimFront, seq', cut, Option.some.injEq]
          rw [show base + (p0.th.seq - rcvNxt).toNat + p0.data.length - (base + (te.th.seq - rcvNxt).toNat) =
            (p0.th.seq - rcvNxt).toNat + p0.data.length - (te.th.seq - rcvNxt).toNat by omega, Nat.add_assoc]
        · cases kept
          refine ⟨⟨?_, ?_⟩, ?_⟩
          · rw [len', ok.len_eq, List.length_drop]
            omega
          · show (te.th.seq + i.toUInt32 - rcvNxt).toNat + (te.data.drop i.toInt.toNat).length < 2 ^ 32
            rw [seq', List.length_drop]
            omega
          · show base + (te.th.seq + i.toUInt32 - rcvNxt).toNat + (te.data.drop i.toInt.toNat).length =
              base + (te.th.seq - rcvNxt).toNat + te.data.length
            rw [seq', List.length_drop]
            omega
    · have notPositive : ¬(p0.th.seq + p0.len.toUInt32 - te.th.seq).toInt32 > 0 := by
        rw [gt_iff_lt, Int32.lt_iff_toInt_lt, overlap]
        simp only [Int32.toInt_zero]
        omega
      rw [if_neg notPositive, if_neg (show ¬base + (te.th.seq - rcvNxt).toNat <
        base + (p0.th.seq - rcvNxt).toNat + p0.data.length by omega)]
      exact ⟨rfl, fun te' kept => by cases kept; exact ⟨ok, rfl⟩⟩

theorem trimSuccs_toPiece (te : Tqe) (ok : TqeOk rcvNxt te) (after : List Tqe) :
    ∀ prev, (∀ q ∈ after, TqeOk rcvNxt q ∧ (te.toPiece rcvNxt base).start ≤ (q.toPiece rcvNxt base).start) →
    AbutFrom (base + 2 ^ 31) prev (after.map (Tqe.toPiece rcvNxt base)) → prev ≤ (te.toPiece rcvNxt base).stop →
    ((trimSuccs te after).1.map (Tqe.toPiece rcvNxt base), (trimSuccs te after).2) =
        trimSucc (te.toPiece rcvNxt base).stop (after.map (Tqe.toPiece rcvNxt base)) ∧
      ∀ q ∈ (trimSuccs te after).1, TqeOk rcvNxt q := by
  induction after with
  | nil => exact fun _ _ _ _ => ⟨rfl, by simp [trimSuccs]⟩
  | cons q rest ih =>
    intro prev oks abut below
    obtain ⟨qOk, qAfter⟩ := oks q List.mem_cons_self
    have restOks : ∀ q' ∈ rest, TqeOk rcvNxt q' ∧
        (te.toPiece rcvNxt base).start ≤ (q'.toPiece rcvNxt base).start :=
      fun q' member => oks q' (List.mem_cons_of_mem q member)
    have teLen := ok.length_lt
    have teEnds := ok.ends
    have qLen := qOk.length_lt
    have qEnds := qOk.ends
    have teStart : (te.toPiece rcvNxt base).start = base + (te.th.seq - rcvNxt).toNat := rfl
    have qStart : (q.toPiece rcvNxt base).start = base + (q.th.seq - rcvNxt).toNat := rfl
    have stop : (te.toPiece rcvNxt base).stop = base + (te.th.seq - rcvNxt).toNat + te.data.length := rfl
    rw [teStart, qStart] at qAfter
    rw [stop] at below
    -- `q` starts near `rcv_nxt` or where the entry before it stops, so the
    -- overlap `i` is the distance between the positions
    have near : (q.th.seq - rcvNxt).toNat < 2 ^ 31 ∨ base + (q.th.seq - rcvNxt).toNat = prev := by
      rcases abut.1 with close | joined
      · exact Or.inl (by rw [qStart] at close; omega)
      · exact Or.inr (by rw [qStart] at joined; exact joined)
    have overlap : (te.th.seq + te.len.toUInt32 - q.th.seq).toInt32.toInt =
        ((te.th.seq - rcvNxt).toNat + te.data.length : Int) - (q.th.seq - rcvNxt).toNat := by
      rw [UInt32.toInt_toInt32_add_sub _ _ _ rcvNxt (by rw [ok.len_toUInt32]; omega)
        (by rw [ok.len_toUInt32]; omega), ok.len_toUInt32]
    dsimp only [trimSuccs]
    rw [List.map_cons]
    unfold trimSucc
    rw [qStart, stop, show (q.toPiece rcvNxt base).data.length = q.data.length from rfl]
    by_cases reaches : (q.th.seq - rcvNxt).toNat < (te.th.seq - rcvNxt).toNat + te.data.length
    · have positive : ¬(te.th.seq + te.len.toUInt32 - q.th.seq).toInt32 ≤ 0 := by
        rw [Int32.le_iff_toInt_le, overlap]
        simp only [Int32.toInt_zero]
        omega
      rw [if_neg positive, if_pos (show base + (q.th.seq - rcvNxt).toNat <
        base + (te.th.seq - rcvNxt).toNat + te.data.length by omega)]
      by_cases inside : (te.th.seq - rcvNxt).toNat + te.data.length - (q.th.seq - rcvNxt).toNat < q.data.length
      · -- `q` loses its front
        have short : (te.th.seq + te.len.toUInt32 - q.th.seq).toInt32 < q.len := by
          rw [Int32.lt_iff_toInt_lt, overlap, qOk.len_eq]
          omega
        rw [if_pos short, if_pos (show base + (te.th.seq - rcvNxt).toNat + te.data.length -
          (base + (q.th.seq - rcvNxt).toNat) < q.data.length by omega)]
        generalize (te.th.seq + te.len.toUInt32 - q.th.seq).toInt32 = i at overlap
        have cut : i.toInt.toNat = (te.th.seq - rcvNxt).toNat + te.data.length - (q.th.seq - rcvNxt).toNat := by
          omega
        have iNat : i.toUInt32.toNat = i.toInt.toNat := Int32.toNat_toUInt32_of_nonneg i (by omega)
        have seq' : (q.th.seq + i.toUInt32 - rcvNxt).toNat = (q.th.seq - rcvNxt).toNat + i.toInt.toNat := by
          rw [toNat_add_sub (by omega), iNat]
        have len' : (q.len - i).toInt = q.len.toInt - i.toInt :=
          Int32.toInt_sub_of_range q.len i (by rw [qOk.len_eq, overlap]; omega)
            (by rw [qOk.len_eq, overlap]; omega)
        refine ⟨?_, fun q' member => ?_⟩
        · simp only [List.map_cons, Tqe.toPiece, Piece.trimFront, seq', cut]
          rw [show base + (te.th.seq - rcvNxt).toNat + te.data.length - (base + (q.th.seq - rcvNxt).toNat) =
            (te.th.seq - rcvNxt).toNat + te.data.length - (q.th.seq - rcvNxt).toNat by omega, Nat.add_assoc]
        · rcases List.mem_cons.mp member with rfl | later
          · refine ⟨?_, ?_⟩
            · show (q.len - i).toInt = (q.data.drop i.toInt.toNat).length
              rw [len', qOk.len_eq, List.length_drop]
              omega
            · show (q.th.seq + i.toUInt32 - rcvNxt).toNat + (q.data.drop i.toInt.toNat).length < 2 ^ 32
              rw [seq', List.length_drop]
              omega
          · exact (restOks q' later).1
      · -- `q` lies inside the new segment and is dequeued
        have long : ¬(te.th.seq + te.len.toUInt32 - q.th.seq).toInt32 < q.len := by
          rw [Int32.lt_iff_toInt_lt, overlap, qOk.len_eq]
          omega
        rw [if_neg long, if_neg (show ¬base + (te.th.seq - rcvNxt).toNat + te.data.length -
          (base + (q.th.seq - rcvNxt).toNat) < q.data.length by omega)]
        obtain ⟨loop, loopOk⟩ := ih (q.toPiece rcvNxt base).stop restOks abut.2
          (by rw [toPiece_stop, stop]; omega)
        rw [stop] at loop
        rw [← loop]
        exact ⟨rfl, loopOk⟩
    · have notPositive : (te.th.seq + te.len.toUInt32 - q.th.seq).toInt32 ≤ 0 := by
        rw [Int32.le_iff_toInt_le, overlap]
        simp only [Int32.toInt_zero]
        omega
      rw [if_pos notPositive, if_neg (show ¬base + (q.th.seq - rcvNxt).toNat <
        base + (te.th.seq - rcvNxt).toNat + te.data.length by omega)]
      exact ⟨rfl, fun q' member => (oks q' member).1⟩

theorem placeSeg_toPiece (te : Tqe) (ok : TqeOk rcvNxt te) (near : (te.th.seq - rcvNxt).toNat < 2 ^ 31)
    (p : Option Tqe)
    (pOk : ∀ p0, p = some p0 → TqeOk rcvNxt p0 ∧ (p0.th.seq - rcvNxt).toNat ≤ (te.th.seq - rcvNxt).toNat)
    (after : List Tqe)
    (afterOk : ∀ q ∈ after, TqeOk rcvNxt q ∧ (te.toPiece rcvNxt base).start < (q.toPiece rcvNxt base).start)
    (ordered : OrderedFrom (reach rcvNxt base p) (after.map (Tqe.toPiece rcvNxt base)))
    (abut : AbutFrom (base + 2 ^ 31) (reach rcvNxt base p) (after.map (Tqe.toPiece rcvNxt base))) :
    (placeSeg p te after).map (fun r => (r.1.map (Tqe.toPiece rcvNxt base), r.2.1)) =
        place (reach rcvNxt base p) (te.toPiece rcvNxt base) (after.map (Tqe.toPiece rcvNxt base)) ∧
      ∀ r, placeSeg p te after = some r → ∀ q ∈ r.1, TqeOk rcvNxt q := by
  obtain ⟨pred, predOk⟩ := trimByPred_toPiece rcvNxt base te ok near p pOk
  unfold placeSeg place
  rw [← pred]
  cases trimmed : trimByPred p te with
  | none => exact ⟨rfl, fun r placed => by simp at placed⟩
  | some te' =>
    obtain ⟨te'Ok, sameStop⟩ := predOk te' trimmed
    have start' := trimPred_start_eq (show trimPred _ _ = some (te'.toPiece rcvNxt base) by
      rw [← pred, trimmed]; rfl)
    have afterStart := ordered.le_start
    -- every entry after starts past the trimmed segment's start
    have later : ∀ q ∈ after, TqeOk rcvNxt q ∧ (te'.toPiece rcvNxt base).start ≤ (q.toPiece rcvNxt base).start := by
      intro q member
      have reached := afterStart _ (List.mem_map_of_mem member)
      have past := (afterOk q member).2
      exact ⟨(afterOk q member).1, by omega⟩
    obtain ⟨succ, succOk⟩ := trimSuccs_toPiece rcvNxt base te' te'Ok after (reach rcvNxt base p) later abut
      (by have := start'; unfold Piece.stop at *; omega)
    refine ⟨?_, ?_⟩
    · simp only [Option.map_some, List.map_cons]
      rw [← succ]
    · intro r placed q member
      cases placed
      rcases List.mem_cons.mp member with rfl | inRest
      · exact te'Ok
      · exact succOk q inRest

/-- The walk of `tcp_reass` over a queue whose entries start near `rcv_nxt` or
where the entry before stops is the library's insertion. -/
theorem insertSeg_toPiece (te : Tqe) (ok : TqeOk rcvNxt te) (near : (te.th.seq - rcvNxt).toNat < 2 ^ 31)
    (qs : List Tqe) : ∀ (p : Option Tqe),
    (∀ p0, p = some p0 → TqeOk rcvNxt p0 ∧ (p0.th.seq - rcvNxt).toNat ≤ (te.th.seq - rcvNxt).toNat) →
    (∀ q ∈ qs, TqeOk rcvNxt q) → OrderedFrom (reach rcvNxt base p) (qs.map (Tqe.toPiece rcvNxt base)) →
    AbutFrom (base + 2 ^ 31) (reach rcvNxt base p) (qs.map (Tqe.toPiece rcvNxt base)) →
    (insertSeg p te qs).map (fun r => (r.1.map (Tqe.toPiece rcvNxt base), r.2.1)) =
        insertFrom (reach rcvNxt base p) (te.toPiece rcvNxt base) (qs.map (Tqe.toPiece rcvNxt base)) ∧
      ∀ r, insertSeg p te qs = some r → ∀ q ∈ r.1, TqeOk rcvNxt q := by
  induction qs with
  | nil =>
    intro p pOk _ _ abut
    simpa only [insertSeg, insertFrom, List.map_nil] using
      placeSeg_toPiece rcvNxt base te ok near p pOk [] (by simp) trivial abut
  | cons q rest ih =>
    intro p pOk oks ordered abut
    have qOk := oks q List.mem_cons_self
    have restOks : ∀ q' ∈ rest, TqeOk rcvNxt q' := fun q' member => oks q' (List.mem_cons_of_mem q member)
    have qLen := qOk.length_lt
    have qStart : (q.toPiece rcvNxt base).start = base + (q.th.seq - rcvNxt).toNat := rfl
    have teStart : (te.toPiece rcvNxt base).start = base + (te.th.seq - rcvNxt).toNat := rfl
    -- `q` starts near `rcv_nxt` or where the entry before stops, so `SEQ_GT`
    -- compares positions
    have close : ((q.th.seq - rcvNxt).toNat : Int) - (te.th.seq - rcvNxt).toNat < 2 ^ 31 := by
      rcases abut.1 with nearQ | joined
      · rw [qStart] at nearQ
        omega
      · rw [qStart] at joined
        cases p with
        | none =>
          simp only [reach] at joined
          omega
        | some p0 =>
          obtain ⟨p0Ok, before⟩ := pOk p0 rfl
          have := p0Ok.length_lt
          rw [reach, toPiece_stop] at joined
          omega
    have compare := seqGt_iff q.th.seq te.th.seq rcvNxt (by omega) close
    unfold insertSeg
    rw [List.map_cons, insertFrom, qStart, teStart]
    by_cases later : (te.th.seq - rcvNxt).toNat < (q.th.seq - rcvNxt).toNat
    · rw [if_pos (compare.mpr later), if_pos (by omega)]
      refine placeSeg_toPiece rcvNxt base te ok near p pOk (q :: rest) (fun q' member => ⟨oks q' member, ?_⟩)
        ordered abut
      rcases List.mem_cons.mp member with rfl | inRest
      · rw [qStart, teStart]
        omega
      · have := ordered.2.le_start _ (List.mem_map_of_mem inRest)
        rw [toPiece_stop] at this
        rw [teStart]
        omega
    · have notLater : ¬seqGt q.th.seq te.th.seq = true := fun gt => later (compare.mp gt)
      rw [if_neg notLater, if_neg (by omega)]
      obtain ⟨walk, walkOk⟩ := ih (some q) (fun q' found => by cases found; exact ⟨qOk, by omega⟩)
        restOks ordered.2 abut.2
      refine ⟨?_, ?_⟩
      · rw [show (q.toPiece rcvNxt base).stop = reach rcvNxt base (some q) from rfl, ← walk]
        cases insertSeg (some q) te rest <;> rfl
      · intro r walked q' member
        obtain ⟨r', walked', rfl⟩ := Option.map_eq_some_iff.mp walked
        rcases List.mem_cons.mp member with rfl | inRest
        · exact qOk
        · exact walkOk r' walked' q' inRest

end Refines

section Present

/-- The loop of `present` takes, from the head, the run of entries that follow
one another from `rcv_nxt`: `rcv_nxt` moves past their bytes, `t_reassqlen`
loses one for each, and their bytes are appended unless `SS_CANTRCVMORE`. -/
theorem presentLoop_spec (cant : Bool) (rcvNxt : UInt32) (base : Nat) (qs : List Tqe) :
    ∀ (pos : Nat) (reassqlen : UInt16) (flags : UInt8), base ≤ pos → (∀ q ∈ qs, TqeOk rcvNxt q) →
    OrderedFrom pos (qs.map (Tqe.toPiece rcvNxt base)) →
    ∃ taken, qs = taken ++ (presentLoop cant (rcvNxt + (pos - base).toUInt32) reassqlen flags qs).segq ∧
      takeRun pos (qs.map (Tqe.toPiece rcvNxt base)) = (taken.map (Tqe.toPiece rcvNxt base),
        (presentLoop cant (rcvNxt + (pos - base).toUInt32) reassqlen flags qs).segq.map (Tqe.toPiece rcvNxt base)) ∧
      (presentLoop cant (rcvNxt + (pos - base).toUInt32) reassqlen flags qs).rcvNxt =
        rcvNxt + (pos + (taken.flatMap (·.data)).length - base).toUInt32 ∧
      (presentLoop cant (rcvNxt + (pos - base).toUInt32) reassqlen flags qs).reassqlen =
        reassqlen - taken.length.toUInt16 ∧
      (presentLoop cant (rcvNxt + (pos - base).toUInt32) reassqlen flags qs).appended =
        if cant then [] else taken.flatMap (·.data) := by
  induction qs with
  | nil =>
    intro pos reassqlen flags _ _ _
    refine ⟨[], rfl, rfl, ?_, ?_, ?_⟩
    · simp [presentLoop]
    · simp [presentLoop]
    · simp [presentLoop]
  | cons q rest ih =>
    intro pos reassqlen flags above oks ordered
    have qOk := oks q List.mem_cons_self
    have qEnds := qOk.ends
    have start : (q.toPiece rcvNxt base).start = base + (q.th.seq - rcvNxt).toNat := rfl
    have reached := ordered.1
    rw [start] at reached
    unfold presentLoop
    by_cases here : base + (q.th.seq - rcvNxt).toNat = pos
    · -- `q` starts at `rcv_nxt` and is taken
      rw [if_pos ((eq_add_toUInt32_iff _ _ (by omega)).mpr (by omega))]
      have next : rcvNxt + (pos - base).toUInt32 + q.len.toUInt32 =
          rcvNxt + (base + (q.th.seq - rcvNxt).toNat + q.data.length - base).toUInt32 := by
        rw [qOk.len_toUInt32_eq, add_toUInt32_add]
        congr 2
        omega
      rw [next]
      obtain ⟨taken, split, run, rcv, count, out⟩ := ih (q.toPiece rcvNxt base).stop (reassqlen - 1)
        (q.th.flags &&& thFin) (by rw [toPiece_stop]; omega)
        (fun q' member => oks q' (List.mem_cons_of_mem q member)) ordered.2
      rw [toPiece_stop] at split run rcv count out
      refine ⟨q :: taken, by rw [List.cons_append, ← split], ?_, ?_, ?_, ?_⟩
      · rw [List.map_cons, takeRun, if_pos (by rw [start]; exact here), toPiece_stop, run]
        rfl
      · rw [rcv, List.flatMap_cons, List.length_append]
        congr 2
        omega
      · rw [count, sub_one_sub, List.length_cons]
      · show (if cant then [] else q.data) ++ _ = _
        rw [out, List.flatMap_cons]
        cases cant <;> rfl
    · rw [if_neg (fun same => here (by have := (eq_add_toUInt32_iff _ _ (by omega)).mp same; omega))]
      refine ⟨[], rfl, ?_, ?_, ?_, ?_⟩
      · rw [List.map_cons, takeRun, if_neg (by rw [start]; exact here)]
        rfl
      · simp
      · simp
      · simp

/-- On an established connection with no reassembly in progress, `present` is
its loop: the test before the loop skips it only when the loop would take
nothing. -/
theorem present_eq (tp : Tcpcb) (cant : Bool) (est : tp.haveEstablished = true)
    (idle : tp.reassInprog = false) :
    present tp cant =
      ({ tp with
          rcvNxt := (presentLoop cant tp.rcvNxt tp.reassqlen 0 tp.segq).rcvNxt
          reassqlen := (presentLoop cant tp.rcvNxt tp.reassqlen 0 tp.segq).reassqlen
          segq := (presentLoop cant tp.rcvNxt tp.reassqlen 0 tp.segq).segq },
        (presentLoop cant tp.rcvNxt tp.reassqlen 0 tp.segq).flags,
        (presentLoop cant tp.rcvNxt tp.reassqlen 0 tp.segq).appended) := by
  obtain ⟨rcvNxt, segq, reassqlen, inprog, established⟩ := tp
  dsimp only at est idle
  subst est idle
  cases segq with
  | nil => rfl
  | cons q rest =>
    by_cases here : q.th.seq = rcvNxt
    · simp [present, here]
    · simp [present, presentLoop, here]

/-- `present` hands on the run of entries from `rcv_nxt`. -/
theorem present_spec (tp : Tcpcb) (cant : Bool) (base : Nat) (oks : ∀ q ∈ tp.segq, TqeOk tp.rcvNxt q)
    (ordered : OrderedFrom base (tp.segq.map (Tqe.toPiece tp.rcvNxt base)))
    (est : tp.haveEstablished = true) (idle : tp.reassInprog = false) :
    ∃ taken, tp.segq = taken ++ (present tp cant).1.segq ∧
      takeRun base (tp.segq.map (Tqe.toPiece tp.rcvNxt base)) =
        (taken.map (Tqe.toPiece tp.rcvNxt base), (present tp cant).1.segq.map (Tqe.toPiece tp.rcvNxt base)) ∧
      (present tp cant).1 = { tp with
        rcvNxt := tp.rcvNxt + (taken.flatMap (·.data)).length.toUInt32
        reassqlen := tp.reassqlen - taken.length.toUInt16
        segq := (present tp cant).1.segq } ∧
      (present tp cant).2.2 = if cant then [] else taken.flatMap (·.data) := by
  have loop := presentLoop_spec cant tp.rcvNxt base tp.segq base tp.reassqlen 0 (Nat.le_refl _) oks ordered
  have origin : tp.rcvNxt + (base - base).toUInt32 = tp.rcvNxt := by
    rw [Nat.sub_self]
    exact UInt32.add_zero _
  rw [origin] at loop
  obtain ⟨taken, split, run, rcv, count, out⟩ := loop
  rw [present_eq tp cant est idle]
  refine ⟨taken, split, run, ?_, out⟩
  rw [rcv, count, Nat.add_sub_cancel_left]

end Present

section Step

/-- Moving `rcv_nxt` on by `L` bytes, and the position it stands for with it,
leaves an entry at or past the new `rcv_nxt` where it was. -/
theorem toPiece_rebase {rcvNxt : UInt32} {base L : Nat} {q : Tqe} (ok : TqeOk rcvNxt q)
    (past : L ≤ (q.th.seq - rcvNxt).toNat) :
    q.toPiece (rcvNxt + L.toUInt32) (base + L) = q.toPiece rcvNxt base ∧ TqeOk (rcvNxt + L.toUInt32) q := by
  have ends := ok.ends
  have off : (q.th.seq - (rcvNxt + L.toUInt32)).toNat = (q.th.seq - rcvNxt).toNat - L := by
    have := q.th.seq.toNat_lt
    have := rcvNxt.toNat_lt
    simp only [UInt32.toNat_sub, UInt32.toNat_add, toNat_toUInt32_of_lt (show L < 2 ^ 32 by omega)] at ends past ⊢
    omega
  refine ⟨?_, ⟨ok.len_eq, by rw [off]; omega⟩⟩
  simp only [Tqe.toPiece, off]
  congr 1
  omega

/-- The segment passes the limits of `tcp_reass`: it is not dropped under mbuf
pressure nor at `qlimit`, and a queue entry is allocated for it. -/
def Accepts (tp : Tcpcb) (th : Tcphdr) (env : Env) : Prop :=
  ¬(th.seq ≠ tp.rcvNxt ∧ env.underPressure = true) ∧
    ¬(th.seq ≠ tp.rcvNxt ∧ tp.reassqlen.toNat + 1 ≥ (qlimit env).toNat) ∧ env.allocOk = true

instance (tp : Tcpcb) (th : Tcphdr) (env : Env) : Decidable (Accepts tp th env) :=
  inferInstanceAs (Decidable (¬(_ ∧ _) ∧ ¬(_ ∧ _) ∧ _))

variable {tp : Tcpcb} {th : Tcphdr} {tlen : Int32} {data : List UInt8} {env : Env}

theorem tcpReass_of_not_accepts (rejected : ¬Accepts tp th env) :
    (tcpReass tp th tlen data env).1 = tp ∧ (tcpReass tp th tlen data env).2.2.2 = [] := by
  unfold tcpReass
  by_cases pressure : th.seq ≠ tp.rcvNxt ∧ env.underPressure = true
  · rw [if_pos pressure]
    exact ⟨rfl, rfl⟩
  · rw [if_neg pressure]
    by_cases full : th.seq ≠ tp.rcvNxt ∧ tp.reassqlen.toNat + 1 ≥ (qlimit env).toNat
    · rw [if_pos full]
      exact ⟨rfl, rfl⟩
    · have noAlloc : env.allocOk = false := by
        cases alloc : env.allocOk
        · rfl
        · exact absurd ⟨pressure, full, alloc⟩ rejected
      rw [if_neg full, if_pos (by simp [noAlloc])]
      exact ⟨rfl, rfl⟩

/-- An accepted segment that the entry before it holds entirely: `goto present`
with the queue and `t_reassqlen` as they were. -/
theorem tcpReass_of_covered (accepts : Accepts tp th env)
    (covered : insertSeg none ⟨th, tlen, data⟩ tp.segq = none) :
    tcpReass tp th tlen data env =
      ((present tp env.cantRcvMore).1, (present tp env.cantRcvMore).2.1, tlen, (present tp env.cantRcvMore).2.2) := by
  obtain ⟨pressure, full, alloc⟩ := accepts
  unfold tcpReass
  rw [if_neg pressure, if_neg full, if_neg (by simp [alloc])]
  dsimp only
  rw [covered]
  dsimp only
  rw [UInt16.add_sub_cancel]

/-- An accepted segment inserted: `t_reassqlen` counts it and loses the
entries it covered, and `present` runs on the new queue. -/
theorem tcpReass_of_inserted {segq : List Tqe} {n : Nat} {tlen' : Int32} (accepts : Accepts tp th env)
    (inserted : insertSeg none ⟨th, tlen, data⟩ tp.segq = some (segq, n, tlen')) :
    tcpReass tp th tlen data env =
      let r := present { tp with segq := segq, reassqlen := tp.reassqlen + 1 - n.toUInt16 } env.cantRcvMore
      (r.1, r.2.1, tlen', r.2.2) := by
  obtain ⟨pressure, full, alloc⟩ := accepts
  unfold tcpReass
  rw [if_neg pressure, if_neg full, if_neg (by simp [alloc])]
  dsimp only
  rw [inserted]

/-- A queue that waits past `rcv_nxt` leaves `present` nothing to do. -/
theorem present_of_waiting (tp : Tcpcb) (cant : Bool) (base : Nat)
    (waiting : ∀ s ∈ (tp.segq.map (Tqe.toPiece tp.rcvNxt base)).head?, base < s.start) :
    present tp cant = (tp, 0, []) := by
  obtain ⟨rcvNxt, segq, reassqlen, inprog, established⟩ := tp
  cases segq with
  | nil => cases established <;> rfl
  | cons q rest =>
    have later := waiting _ rfl
    have moved : q.th.seq ≠ rcvNxt := by
      intro same
      simp [Tqe.toPiece, same] at later
    cases established <;> simp [present, moved]

end Step

section Refinement

/-- The queue as pieces of the stream, `rcv_nxt` standing at position `base`. -/
def held (base : Nat) (tp : Tcpcb) : List (Piece UInt8 UInt8) := tp.segq.map (Tqe.toPiece tp.rcvNxt base)

/-- The queue of an established connection with no reassembly in progress,
`rcv_nxt` standing at position `base`: the entries are sound and sorted from
`base`, each starts less than `2^31` past `rcv_nxt` or where the one before it
stops, the first waits past `rcv_nxt`, and `t_reassqlen` counts them with room
for one more. -/
structure SegqOk (base : Nat) (tp : Tcpcb) : Prop where
  entries : ∀ q ∈ tp.segq, TqeOk tp.rcvNxt q
  ordered : OrderedFrom base (held base tp)
  abut : AbutFrom (base + 2 ^ 31) base (held base tp)
  waiting : ∀ s ∈ (held base tp).head?, base < s.start
  count : tp.reassqlen.toNat = tp.segq.length
  room : tp.segq.length < 65535
  established : tp.haveEstablished = true
  idle : tp.reassInprog = false

/-- What the stream does with a segment: the receiver's step of the library
when the segment passes the limits, nothing otherwise. -/
def streamStep (base : Nat) (tp : Tcpcb) (th : Tcphdr) (tlen : Int32) (data : List UInt8) (env : Env) :
    List (Piece UInt8 UInt8) × List UInt8 :=
  if Accepts tp th env then deliver base ((⟨th, tlen, data⟩ : Tqe).toPiece tp.rcvNxt base) (held base tp)
  else (held base tp, [])

/-- The connection `r`, with `out` appended, is where the stream's step `step`
leaves the connection `tp` at position `base`. -/
structure RefinesStep (base : Nat) (tp r : Tcpcb) (cant : Bool) (out : List UInt8)
    (step : List (Piece UInt8 UInt8) × List UInt8) : Prop where
  ok : SegqOk (base + step.2.length) r
  held_eq : held (base + step.2.length) r = step.1
  rcvNxt_eq : r.rcvNxt = tp.rcvNxt + step.2.length.toUInt32
  appended : out = if cant then [] else step.2

variable {base : Nat} {tp : Tcpcb} {th : Tcphdr} {tlen : Int32} {data : List UInt8} {env : Env}

theorem refinesStep_unchanged (ok : SegqOk base tp) (cant : Bool) : RefinesStep base tp tp cant [] (held base tp, []) :=
  ⟨ok, rfl, (UInt32.add_zero tp.rcvNxt).symm, by cases cant <;> rfl⟩

theorem segment_ok (near : (th.seq - tp.rcvNxt).toNat < 2 ^ 31) (lenOk : tlen.toInt = data.length) :
    TqeOk tp.rcvNxt ⟨th, tlen, data⟩ := by
  have := tlen.toInt_lt
  exact ⟨lenOk, by dsimp only; omega⟩

/-- The walk of `tcp_reass` from the head of a sound queue is the library's
insertion at `rcv_nxt`. -/
theorem insertSeg_held (ok : SegqOk base tp) (near : (th.seq - tp.rcvNxt).toNat < 2 ^ 31)
    (lenOk : tlen.toInt = data.length) :
    (insertSeg none ⟨th, tlen, data⟩ tp.segq).map (fun r => (r.1.map (Tqe.toPiece tp.rcvNxt base), r.2.1)) =
        insertFrom base ((⟨th, tlen, data⟩ : Tqe).toPiece tp.rcvNxt base) (held base tp) ∧
      ∀ r, insertSeg none ⟨th, tlen, data⟩ tp.segq = some r → ∀ q ∈ r.1, TqeOk tp.rcvNxt q :=
  insertSeg_toPiece tp.rcvNxt base _ (segment_ok near lenOk) near tp.segq none (fun _ found => by cases found)
    ok.entries ok.ordered ok.abut

/-- An inserted segment: `present` takes the run from `rcv_nxt` of the new
queue, which is the stream's step, and the entries left keep their positions
with `rcv_nxt` moved past the run. -/
theorem tcpReass_refines_inserted {segq : List Tqe} {n : Nat} {tlen' : Int32} (ok : SegqOk base tp)
    (near : (th.seq - tp.rcvNxt).toNat < 2 ^ 31) (lenOk : tlen.toInt = data.length) (accepts : Accepts tp th env)
    (inserted : insertSeg none ⟨th, tlen, data⟩ tp.segq = some (segq, n, tlen')) :
    RefinesStep base tp (tcpReass tp th tlen data env).1 env.cantRcvMore (tcpReass tp th tlen data env).2.2.2
      (streamStep base tp th tlen data env) := by
  obtain ⟨walk, walkOk⟩ := insertSeg_held ok near lenOk
  rw [inserted, Option.map_some] at walk
  have segqOk := walkOk _ inserted
  have walked : insertFrom base ((⟨th, tlen, data⟩ : Tqe).toPiece tp.rcvNxt base) (held base tp) =
      some (segq.map (Tqe.toPiece tp.rcvNxt base), n) := walk.symm
  have withEq : withPiece base ((⟨th, tlen, data⟩ : Tqe).toPiece tp.rcvNxt base) (held base tp) =
      segq.map (Tqe.toPiece tp.rcvNxt base) := by
    rw [withPiece, walked]
    rfl
  have lengths : segq.length + n = tp.segq.length + 1 := by
    simpa [held] using insertFrom_length _ base _ _ walked
  obtain ⟨taken, split, run, state, out⟩ := present_spec { tp with segq := segq, reassqlen := tp.reassqlen + 1 - n.toUInt16 }
    env.cantRcvMore base segqOk (insertFrom_ordered _ base _ ok.ordered _ walked) ok.established ok.idle
  generalize (present { tp with segq := segq, reassqlen := tp.reassqlen + 1 - n.toUInt16 } env.cantRcvMore).1.segq = rest
    at split run state
  dsimp only at split
  have run' : takeRun base (segq.map (Tqe.toPiece tp.rcvNxt base)) =
      (taken.map (Tqe.toPiece tp.rcvNxt base), rest.map (Tqe.toPiece tp.rcvNxt base)) := run
  have deliverEq : deliver base ((⟨th, tlen, data⟩ : Tqe).toPiece tp.rcvNxt base) (held base tp) =
      (rest.map (Tqe.toPiece tp.rcvNxt base), taken.flatMap (·.data)) := by
    rw [deliver, withEq, run', runData_map]
    rfl
  have splitLength : segq.length = taken.length + rest.length := by
    rw [split, List.length_append]
  -- the segment's piece and where the step leaves the queue
  have nearNew : ((⟨th, tlen, data⟩ : Tqe).toPiece tp.rcvNxt base).start < base + 2 ^ 31 := by
    show base + (th.seq - tp.rcvNxt).toNat < base + 2 ^ 31
    omega
  have restOrdered : OrderedFrom (base + (taken.flatMap (·.data)).length) (rest.map (Tqe.toPiece tp.rcvNxt base)) := by
    have left : OrderedFrom (base + (deliver base ((⟨th, tlen, data⟩ : Tqe).toPiece tp.rcvNxt base) (held base tp)).2.length)
        (deliver base ((⟨th, tlen, data⟩ : Tqe).toPiece tp.rcvNxt base) (held base tp)).1 := deliver_ordered ok.ordered
    rwa [deliverEq] at left
  have restWaiting : ∀ s ∈ (rest.map (Tqe.toPiece tp.rcvNxt base)).head?,
      base + (taken.flatMap (·.data)).length < s.start := by
    have left : ∀ s ∈ (deliver base ((⟨th, tlen, data⟩ : Tqe).toPiece tp.rcvNxt base) (held base tp)).1.head?,
        base + (deliver base ((⟨th, tlen, data⟩ : Tqe).toPiece tp.rcvNxt base) (held base tp)).2.length < s.start :=
      deliver_waiting ok.ordered
    rwa [deliverEq] at left
  have restAbut : AbutFrom (base + 2 ^ 31) (base + (taken.flatMap (·.data)).length)
      (rest.map (Tqe.toPiece tp.rcvNxt base)) := by
    have left := deliver_abut ok.abut nearNew (base + (taken.flatMap (·.data)).length)
    rwa [deliverEq] at left
  -- the entries left start past the run, so they keep their positions
  have rebased : ∀ q ∈ rest, q.toPiece (tp.rcvNxt + (taken.flatMap (·.data)).length.toUInt32)
      (base + (taken.flatMap (·.data)).length) = q.toPiece tp.rcvNxt base ∧
      TqeOk (tp.rcvNxt + (taken.flatMap (·.data)).length.toUInt32) q := by
    intro q member
    have start : base + (taken.flatMap (·.data)).length ≤ base + (q.th.seq - tp.rcvNxt).toNat :=
      restOrdered.le_start _ (List.mem_map_of_mem member)
    exact toPiece_rebase (segqOk q (split ▸ List.mem_append_right taken member)) (by omega)
  rw [tcpReass_of_inserted accepts inserted]
  dsimp only
  rw [out, streamStep, if_pos accepts, deliverEq]
  generalize (present { tp with segq := segq, reassqlen := tp.reassqlen + 1 - n.toUInt16 } env.cantRcvMore).1 = r
    at state ⊢
  have rSegq : r.segq = rest := by rw [state]
  have rRcv : r.rcvNxt = tp.rcvNxt + (taken.flatMap (·.data)).length.toUInt32 := by rw [state]
  have rHeld : held (base + (taken.flatMap (·.data)).length) r = rest.map (Tqe.toPiece tp.rcvNxt base) := by
    rw [held, rSegq, rRcv]
    exact List.map_congr_left fun q member => (rebased q member).1
  refine ⟨⟨?entries, ?ordered, ?abut, ?waiting, ?count, ?room, by rw [state]; exact ok.established,
    by rw [state]; exact ok.idle⟩, rHeld, rRcv, rfl⟩
  case entries =>
    rw [rSegq, rRcv]
    exact fun q member => (rebased q member).2
  case ordered =>
    rw [rHeld]
    exact restOrdered
  case abut =>
    rw [rHeld]
    exact restAbut.mono (by omega)
  case waiting =>
    rw [rHeld]
    exact restWaiting
  case count =>
    have count := ok.count
    have room := ok.room
    rw [state]
    dsimp only
    rw [toNat_add_one_sub_sub _ (by omega) (by omega)]
    omega
  case room =>
    rw [rSegq]
    by_cases here : th.seq = tp.rcvNxt
    · -- in order: the segment itself is handed on at once
      have atBase : ((⟨th, tlen, data⟩ : Tqe).toPiece tp.rcvNxt base).start = base := by
        show base + (th.seq - tp.rcvNxt).toNat = base
        rw [here, UInt32.sub_self]
        rfl
      have takes := deliver_takes atBase ok.waiting
      rw [withEq, run'] at takes
      have nonempty : 0 < taken.length := List.length_pos_iff.mpr fun empty => takes (by rw [empty]; rfl)
      have := ok.room
      omega
    · -- out of order: `qlimit` left room for it
      have below : tp.reassqlen.toNat + 1 < (qlimit env).toNat :=
        Nat.lt_of_not_le fun full => accepts.2.1 ⟨here, full⟩
      have := (qlimit env).toNat_lt
      have := ok.count
      omega

/-- One call of `tcp_reass` on a sound queue, with `SEQ_GEQ(th_seq, rcv_nxt)`
and `*tlenp` the segment's length, is the stream's step. -/
theorem tcpReass_refines (ok : SegqOk base tp) (geq : (th.seq - tp.rcvNxt).toInt32 ≥ 0)
    (lenOk : tlen.toInt = data.length) :
    RefinesStep base tp (tcpReass tp th tlen data env).1 env.cantRcvMore (tcpReass tp th tlen data env).2.2.2
      (streamStep base tp th tlen data env) := by
  have near := UInt32.toNat_lt_of_toInt32_nonneg geq
  by_cases accepts : Accepts tp th env
  · cases inserted : insertSeg none ⟨th, tlen, data⟩ tp.segq with
    | none =>
      -- the entry before holds all of the segment: nothing moves
      have walk := (insertSeg_held ok near lenOk).1
      rw [inserted] at walk
      have withEq : withPiece base ((⟨th, tlen, data⟩ : Tqe).toPiece tp.rcvNxt base) (held base tp) = held base tp := by
        rw [withPiece, ← walk]
        rfl
      rw [tcpReass_of_covered accepts inserted, present_of_waiting tp env.cantRcvMore base ok.waiting, streamStep,
        if_pos accepts, deliver, withEq, takeRun_of_waiting ok.waiting]
      exact refinesStep_unchanged ok env.cantRcvMore
    | some r =>
      obtain ⟨segq, n, tlen'⟩ := r
      exact tcpReass_refines_inserted ok near lenOk accepts inserted
  · rw [(tcpReass_of_not_accepts accepts).1, (tcpReass_of_not_accepts accepts).2, streamStep, if_neg accepts]
    exact refinesStep_unchanged ok env.cantRcvMore

/-- Each byte the step hands on was queued at its position or carried there by
the accepted segment. -/
theorem streamStep_out (ok : SegqOk base tp) {k : Nat} {b : UInt8}
    (byte : (streamStep base tp th tlen data env).2[k]? = some b) :
    valueAt (held base tp) (base + k) = some b ∨
      Accepts tp th env ∧ ((⟨th, tlen, data⟩ : Tqe).toPiece tp.rcvNxt base).get (base + k) = some b := by
  unfold streamStep at byte
  by_cases accepts : Accepts tp th env
  · rw [if_pos accepts] at byte
    rcases deliver_out ok.ordered byte with queued | fresh
    · exact Or.inl queued
    · exact Or.inr ⟨accepts, fresh⟩
  · rw [if_neg accepts] at byte
    simp at byte

/-- Each byte the step leaves queued was queued before or carried by the
accepted segment. -/
theorem streamStep_sourced (ok : SegqOk base tp) {x : Nat} {v : UInt8}
    (holds : valueAt (streamStep base tp th tlen data env).1 x = some v) :
    valueAt (held base tp) x = some v ∨
      Accepts tp th env ∧ ((⟨th, tlen, data⟩ : Tqe).toPiece tp.rcvNxt base).get x = some v := by
  unfold streamStep at holds
  by_cases accepts : Accepts tp th env
  · rw [if_pos accepts] at holds
    rcases deliver_sourced ok.ordered holds with queued | fresh
    · exact Or.inl queued
    · exact Or.inr ⟨accepts, fresh⟩
  · rw [if_neg accepts] at holds
    exact Or.inl holds

/-- The step loses nothing: a byte queued before, or carried by the accepted
segment, is handed on or still queued. -/
theorem streamStep_covers (ok : SegqOk base tp) {x : Nat}
    (holds : (valueAt (held base tp) x).isSome ∨
      Accepts tp th env ∧ (((⟨th, tlen, data⟩ : Tqe).toPiece tp.rcvNxt base).get x).isSome) :
    x < base + (streamStep base tp th tlen data env).2.length ∨
      (valueAt (streamStep base tp th tlen data env).1 x).isSome := by
  unfold streamStep
  by_cases accepts : Accepts tp th env
  · rw [if_pos accepts]
    exact deliver_covers ok.ordered (Nat.le_add_right _ _) (holds.imp_right And.right)
  · rw [if_neg accepts]
    rcases holds with queued | ⟨accepted, _⟩
    · exact Or.inr queued
    · exact absurd accepted accepts

end Refinement

end Xnu.TcpReass
