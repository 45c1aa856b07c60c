import Xnu.Lib.Serial
import Xnu.Net.TcpSackReport

namespace Xnu.TcpSack

/-! The 32-bit `tcp_update_sack_list` computes the report over positions as
long as every sequence number it compares lies in one half `[c, c + 2^31)` of
the sequence space: there `SEQ_LT` and its kin are the order of the
positions `x - c`. -/

/-- The position of `x` counted from `c`. -/
def pos (c x : UInt32) : Nat := (x - c).toNat

/-- `x` lies in the half `[c, c + 2^31)` of the sequence space. -/
def InWindow (c x : UInt32) : Prop := pos c x < 2 ^ 31

instance (c x : UInt32) : Decidable (InWindow c x) := inferInstanceAs (Decidable (_ < _))

/-- The positions a block covers. -/
def Sackblk.toSpan (c : UInt32) (b : Sackblk) : Span Nat := ⟨pos c b.start, pos c b.stop⟩

@[simp] theorem Sackblk.toSpan_start (c : UInt32) (b : Sackblk) : (b.toSpan c).start = pos c b.start := rfl

@[simp] theorem Sackblk.toSpan_stop (c : UInt32) (b : Sackblk) : (b.toSpan c).stop = pos c b.stop := rfl

def Sackblk.InWindow (c : UInt32) (b : Sackblk) : Prop := TcpSack.InWindow c b.start ∧ TcpSack.InWindow c b.stop

section Window

variable {c x y : UInt32}

theorem toInt_toInt32_sub (wx : InWindow c x) (wy : InWindow c y) :
    (x - y).toInt32.toInt = (pos c x : Int) - pos c y := by
  unfold InWindow pos at wx wy
  have diff := UInt32.toInt_toInt32_add_sub x 0 y c (by simp; omega) (by simp; omega)
  simpa [pos] using diff

theorem seqLt_eq (wx : InWindow c x) (wy : InWindow c y) : seqLt x y = decide (pos c x < pos c y) := by
  simp only [seqLt, Int32.lt_iff_toInt_lt, Int32.toInt_zero, toInt_toInt32_sub wx wy, decide_eq_decide]
  omega

theorem seqLeq_eq (wx : InWindow c x) (wy : InWindow c y) : seqLeq x y = decide (pos c x ≤ pos c y) := by
  simp only [seqLeq, Int32.le_iff_toInt_le, Int32.toInt_zero, toInt_toInt32_sub wx wy, decide_eq_decide]
  omega

theorem seqGt_eq (wx : InWindow c x) (wy : InWindow c y) : seqGt x y = decide (pos c y < pos c x) := by
  simp only [seqGt, gt_iff_lt, Int32.lt_iff_toInt_lt, Int32.toInt_zero, toInt_toInt32_sub wx wy,
    decide_eq_decide]
  omega

theorem seqGeq_eq (wx : InWindow c x) (wy : InWindow c y) : seqGeq x y = decide (pos c y ≤ pos c x) := by
  simp only [seqGeq, ge_iff_le, Int32.le_iff_toInt_le, Int32.toInt_zero, toInt_toInt32_sub wx wy,
    decide_eq_decide]
  omega

end Window

section Refines

variable {c nxt : UInt32}

theorem mergeLoop_saved_mem : ∀ {head : Sackblk} {blocks : List Sackblk} {b : Sackblk},
    b ∈ (mergeLoop nxt head blocks).2 → b ∈ blocks
  | _, [], _, saved => by cases saved
  | head, d :: rest, b, saved => by
    simp only [mergeLoop] at saved
    split at saved
    · exact List.mem_cons_of_mem d (mergeLoop_saved_mem saved)
    · split at saved
      · exact List.mem_cons_of_mem d (mergeLoop_saved_mem saved)
      · rcases List.mem_cons.mp saved with rfl | later
        · exact List.mem_cons_self
        · exact List.mem_cons_of_mem d (mergeLoop_saved_mem later)

theorem mergeLoop_sublist : ∀ (head : Sackblk) (blocks : List Sackblk),
    List.Sublist (mergeLoop nxt head blocks).2 blocks
  | _, [] => List.Sublist.slnil
  | head, b :: rest => by
    simp only [mergeLoop]
    split
    · exact (mergeLoop_sublist head rest).cons b
    · split
      · exact (mergeLoop_sublist _ rest).cons b
      · exact (mergeLoop_sublist head rest).cons_cons b

/-- The merged block of the code is the hull of the positions. -/
theorem merged_toSpan {head b : Sackblk} (wh : head.InWindow c) (wb : b.InWindow c) :
    Sackblk.toSpan c ⟨if seqGt head.start b.start then b.start else head.start,
      if seqLt head.stop b.stop then b.stop else head.stop⟩ = (head.toSpan c).hull (b.toSpan c) ∧
    Sackblk.InWindow c ⟨if seqGt head.start b.start then b.start else head.start,
      if seqLt head.stop b.stop then b.stop else head.stop⟩ := by
  rw [seqGt_eq wh.1 wb.1, seqLt_eq wh.2 wb.2]
  simp only [Sackblk.toSpan, Span.hull, Sackblk.InWindow, Span.mk.injEq]
  split_ifs <;> simp only [decide_eq_true_eq] at * <;> refine ⟨⟨?_, ?_⟩, ?_, ?_⟩ <;>
    first | exact wh.1 | exact wh.2 | exact wb.1 | exact wb.2 | omega

/-- In the window the loop of the code is the loop over positions. -/
theorem mergeLoop_toSpan (wn : InWindow c nxt) : ∀ (head : Sackblk) (blocks : List Sackblk),
    head.InWindow c → (∀ b ∈ blocks, b.InWindow c) →
      ((mergeLoop nxt head blocks).1.toSpan c, (mergeLoop nxt head blocks).2.map (Sackblk.toSpan c)) =
        reportLoop (pos c nxt) (head.toSpan c) (blocks.map (Sackblk.toSpan c)) ∧
      (mergeLoop nxt head blocks).1.InWindow c
  | _, [], wh, _ => ⟨rfl, wh⟩
  | head, b :: rest, wh, wblocks => by
    have wb := wblocks b List.mem_cons_self
    have wrest : ∀ d ∈ rest, d.InWindow c := fun d member => wblocks d (List.mem_cons_of_mem b member)
    simp only [mergeLoop, reportLoop, List.map_cons]
    rw [seqGeq_eq wb.1 wb.2, seqLeq_eq wb.1 wn, seqLeq_eq wh.1 wb.2, seqGeq_eq wh.2 wb.1]
    by_cases dropped : (b.toSpan c).stop ≤ (b.toSpan c).start ∨ (b.toSpan c).start ≤ pos c nxt
    · have dropped' : (decide (pos c b.stop ≤ pos c b.start) || decide (pos c b.start ≤ pos c nxt)) = true := by
        simpa using dropped
      rw [if_pos dropped', if_pos dropped]
      exact mergeLoop_toSpan wn head rest wh wrest
    · have kept : ¬(decide (pos c b.stop ≤ pos c b.start) || decide (pos c b.start ≤ pos c nxt)) = true := by
        simpa using dropped
      rw [if_neg kept, if_neg dropped]
      by_cases touch : (head.toSpan c).Touches (b.toSpan c)
      · have touch' : (decide (pos c head.start ≤ pos c b.stop) && decide (pos c b.start ≤ pos c head.stop)) = true := by
          simpa [Span.Touches, Sackblk.toSpan] using touch
        rw [if_pos touch', if_pos touch]
        obtain ⟨hull, wmerged⟩ := merged_toSpan wh wb
        rw [← hull]
        exact mergeLoop_toSpan wn _ rest wmerged wrest
      · have apart : ¬(decide (pos c head.start ≤ pos c b.stop) && decide (pos c b.start ≤ pos c head.stop)) = true := by
          simpa [Span.Touches, Sackblk.toSpan] using touch
        rw [if_neg apart, if_neg touch]
        obtain ⟨same, wmerged⟩ := mergeLoop_toSpan wn head rest wh wrest
        refine ⟨?_, wmerged⟩
        rw [← same]
        rfl

variable {tp : Tcpcb} {rcvStart rcvEnd : UInt32}

/-- In the window `tcp_update_sack_list` computes the report over positions,
and leaves every block in the window. -/
theorem tcpUpdateSackList_toSpan (wn : InWindow c tp.rcvNxt) (ws : InWindow c rcvStart) (we : InWindow c rcvEnd)
    (wblocks : ∀ b ∈ tp.sackblks, b.InWindow c) :
    (tcpUpdateSackList tp rcvStart rcvEnd).sackblks.map (Sackblk.toSpan c) =
        reportUpdate (pos c tp.rcvNxt) ⟨pos c rcvStart, pos c rcvEnd⟩ (tp.sackblks.map (Sackblk.toSpan c)) ∧
      ∀ b ∈ (tcpUpdateSackList tp rcvStart rcvEnd).sackblks, b.InWindow c := by
  obtain ⟨same, wmerged⟩ := mergeLoop_toSpan wn ⟨rcvStart, rcvEnd⟩ tp.sackblks ⟨ws, we⟩ wblocks
  have wsaved : ∀ b ∈ (mergeLoop tp.rcvNxt ⟨rcvStart, rcvEnd⟩ tp.sackblks).2, b.InWindow c :=
    fun b saved => wblocks b (mergeLoop_saved_mem saved)
  have segment : (⟨pos c rcvStart, pos c rcvEnd⟩ : Span Nat) = Sackblk.toSpan c ⟨rcvStart, rcvEnd⟩ := rfl
  unfold tcpUpdateSackList reportUpdate
  dsimp only
  rw [segment, ← same, seqGt_eq wmerged.1 wn]
  dsimp only
  by_cases past : pos c tp.rcvNxt < ((mergeLoop tp.rcvNxt ⟨rcvStart, rcvEnd⟩ tp.sackblks).1.toSpan c).start
  · have past' : pos c tp.rcvNxt < pos c (mergeLoop tp.rcvNxt ⟨rcvStart, rcvEnd⟩ tp.sackblks).1.start := past
    rw [if_pos (decide_eq_true past'), if_pos past]
    refine ⟨?_, ?_⟩
    · simp only [List.map_cons, List.length_map, ge_iff_le]
      split <;> simp [List.map_dropLast]
    · intro b member
      rcases List.mem_cons.mp member with rfl | saved
      · exact wmerged
      · split at saved
        · exact wsaved b (List.dropLast_subset _ saved)
        · exact wsaved b saved
  · have past' : ¬pos c tp.rcvNxt < pos c (mergeLoop tp.rcvNxt ⟨rcvStart, rcvEnd⟩ tp.sackblks).1.start := past
    rw [if_neg (by simpa using past'), if_neg past]
    exact ⟨rfl, wsaved⟩

end Refines

section Run

/-- The states of the report, with the segments received, when every sequence
number involved lies in `[c, c + 2^31)`: from no blocks, through segments
received (`tcp_update_sack_list` with `SEQ_LT(rcv_start, rcv_end)`), advances
of `rcv_nxt` and `tcp_clean_sackreport`. -/
inductive Reach (c : UInt32) : Tcpcb → List (Span Nat) → Prop
  | start (rcvNxt : UInt32) : InWindow c rcvNxt → Reach c ⟨rcvNxt, []⟩ []
  | update {tp : Tcpcb} {received : List (Span Nat)} (rcvStart rcvEnd : UInt32) :
      Reach c tp received → seqLt rcvStart rcvEnd = true → InWindow c rcvStart → InWindow c rcvEnd →
      Reach c (tcpUpdateSackList tp rcvStart rcvEnd) (Sackblk.toSpan c ⟨rcvStart, rcvEnd⟩ :: received)
  | advance {tp : Tcpcb} {received : List (Span Nat)} (n : UInt32) :
      Reach c tp received → InWindow c (tp.rcvNxt + n) → Reach c { tp with rcvNxt := tp.rcvNxt + n } received
  | clean {tp : Tcpcb} {received : List (Span Nat)} :
      Reach c tp received → Reach c (tcpCleanSackreport tp) received

/-- `rcv_nxt` and every block in the window. -/
structure Windowed (c : UInt32) (tp : Tcpcb) : Prop where
  nxt : InWindow c tp.rcvNxt
  blocks : ∀ b ∈ tp.sackblks, b.InWindow c

variable {c : UInt32} {tp : Tcpcb} {received : List (Span Nat)}

theorem Reach.invariant (reach : Reach c tp received) :
    Windowed c tp ∧ ReportOk received (tp.sackblks.map (Sackblk.toSpan c)) := by
  induction reach with
  | start rcvNxt wn => exact ⟨⟨wn, fun _ member => by cases member⟩, ReportOk.nil []⟩
  | update rcvStart rcvEnd _ ordered ws we ih =>
    obtain ⟨⟨wn, wblocks⟩, ok⟩ := ih
    obtain ⟨same, wnew⟩ := tcpUpdateSackList_toSpan wn ws we wblocks
    refine ⟨⟨by rw [tcpUpdateSackList_rcvNxt]; exact wn, wnew⟩, ?_⟩
    rw [same]
    rw [seqLt_eq ws we, decide_eq_true_eq] at ordered
    exact ok.update ordered
  | advance n _ wn ih => exact ⟨⟨wn, ih.1.blocks⟩, ih.2⟩
  | clean _ ih => exact ⟨⟨ih.1.nxt, fun _ member => by cases member⟩, ReportOk.nil _⟩

/-- The blocks after an update, read back as sequence numbers: none empty,
each starting past `rcv_nxt`. -/
theorem Windowed.update_above (win : Windowed c tp) {rcvStart rcvEnd : UInt32} (ordered : seqLt rcvStart rcvEnd = true)
    (ws : InWindow c rcvStart) (we : InWindow c rcvEnd) :
    ∀ b ∈ (tcpUpdateSackList tp rcvStart rcvEnd).sackblks, seqLt b.start b.stop = true ∧ seqGt b.start tp.rcvNxt = true := by
  obtain ⟨same, wnew⟩ := tcpUpdateSackList_toSpan win.nxt ws we win.blocks
  rw [seqLt_eq ws we, decide_eq_true_eq] at ordered
  intro b member
  have mapped : b.toSpan c ∈ reportUpdate (pos c tp.rcvNxt) ⟨pos c rcvStart, pos c rcvEnd⟩ (tp.sackblks.map (Sackblk.toSpan c)) := by
    rw [← same]
    exact List.mem_map_of_mem member
  obtain ⟨proper, above⟩ := reportUpdate_above ordered (b.toSpan c) mapped
  rw [seqLt_eq (wnew b member).1 (wnew b member).2, seqGt_eq (wnew b member).1 win.nxt]
  exact ⟨decide_eq_true proper, decide_eq_true above⟩

/-- An update puts the merged block first or drops it, and keeps the other
blocks in their order. -/
theorem tcpUpdateSackList_order (tp : Tcpcb) (rcvStart rcvEnd : UInt32) :
    ∃ rest, List.Sublist rest tp.sackblks ∧
      (tcpUpdateSackList tp rcvStart rcvEnd).sackblks =
        if seqGt (mergeLoop tp.rcvNxt ⟨rcvStart, rcvEnd⟩ tp.sackblks).1.start tp.rcvNxt
        then (mergeLoop tp.rcvNxt ⟨rcvStart, rcvEnd⟩ tp.sackblks).1 :: rest
        else rest := by
  have saved : List.Sublist (mergeLoop tp.rcvNxt ⟨rcvStart, rcvEnd⟩ tp.sackblks).2 tp.sackblks :=
    mergeLoop_sublist _ _
  unfold tcpUpdateSackList
  dsimp only
  split
  · refine ⟨_, ?_, rfl⟩
    split
    · exact (List.dropLast_sublist _).trans saved
    · exact saved
  · exact ⟨_, saved, rfl⟩

/-- Within `[c, c + 2^31)` of the sequence space, through any interleaving of
segments received, advances of `rcv_nxt` and `tcp_clean_sackreport`: at most
`MAX_SACK_BLKS` blocks, none empty, pairwise apart with at least one sequence
number between two of them, each a union of received segments; and an update
leaves every block past `rcv_nxt`, puts the merged block, which holds the
segment, first when it starts past `rcv_nxt`, and keeps the other blocks in
their previous order. -/
theorem tcpUpdateSackList_report (reach : Reach c tp received) :
    tp.sackblks.length ≤ maxSackBlks ∧ (∀ b ∈ tp.sackblks, seqLt b.start b.stop = true) ∧
      (tp.sackblks.map (Sackblk.toSpan c)).Pairwise Span.Apart ∧
      (∀ b ∈ tp.sackblks, ∀ x, (b.toSpan c).Contains x → ∃ g ∈ received, g.Within (b.toSpan c) ∧ g.Contains x) ∧
      ∀ rcvStart rcvEnd, seqLt rcvStart rcvEnd = true → InWindow c rcvStart → InWindow c rcvEnd →
        (∀ b ∈ (tcpUpdateSackList tp rcvStart rcvEnd).sackblks, seqGt b.start tp.rcvNxt = true) ∧
        (Sackblk.toSpan c ⟨rcvStart, rcvEnd⟩).Within ((mergeLoop tp.rcvNxt ⟨rcvStart, rcvEnd⟩ tp.sackblks).1.toSpan c) ∧
        ∃ rest, List.Sublist rest tp.sackblks ∧
          (tcpUpdateSackList tp rcvStart rcvEnd).sackblks =
            if seqGt (mergeLoop tp.rcvNxt ⟨rcvStart, rcvEnd⟩ tp.sackblks).1.start tp.rcvNxt
            then (mergeLoop tp.rcvNxt ⟨rcvStart, rcvEnd⟩ tp.sackblks).1 :: rest
            else rest := by
  obtain ⟨win, ok⟩ := reach.invariant
  refine ⟨by simpa using ok.few, fun b member => ?_, ok.apart, fun b member => ok.union _ (List.mem_map_of_mem member),
    fun rcvStart rcvEnd ordered ws we => ⟨fun b member => (win.update_above ordered ws we b member).2, ?_,
      tcpUpdateSackList_order tp rcvStart rcvEnd⟩⟩
  · rw [seqLt_eq (win.blocks b member).1 (win.blocks b member).2]
    exact decide_eq_true (ok.proper _ (List.mem_map_of_mem member))
  · obtain ⟨same, -⟩ := mergeLoop_toSpan win.nxt ⟨rcvStart, rcvEnd⟩ tp.sackblks ⟨ws, we⟩ win.blocks
    have merged := congrArg Prod.fst same
    dsimp only at merged
    rw [merged]
    exact within_reportLoop _ _

/-- From `rcv_nxt = 1000`: two out-of-order segments, `[1010, 1020)` and
`[1030, 1040)`, reported most recent first; `rcv_nxt` advances to 1005; then
`[1020, 1030)` fills the hole and the three merge into one block. -/
theorem tcpUpdateSackList_report_merge :
    let tp : Tcpcb := tcpUpdateSackList
      { tcpUpdateSackList (tcpUpdateSackList ⟨1000, []⟩ 1010 1020) 1030 1040 with rcvNxt := 1000 + 5 } 1020 1030
    let received : List (Span Nat) := [Sackblk.toSpan 0 ⟨1020, 1030⟩, Sackblk.toSpan 0 ⟨1030, 1040⟩,
      Sackblk.toSpan 0 ⟨1010, 1020⟩]
    tp.sackblks.length ≤ maxSackBlks ∧ (∀ b ∈ tp.sackblks, seqLt b.start b.stop = true) ∧
      (tp.sackblks.map (Sackblk.toSpan 0)).Pairwise Span.Apart ∧
      (∀ b ∈ tp.sackblks, ∀ x, (b.toSpan 0).Contains x → ∃ g ∈ received, g.Within (b.toSpan 0) ∧ g.Contains x) ∧
      ∀ rcvStart rcvEnd, seqLt rcvStart rcvEnd = true → InWindow 0 rcvStart → InWindow 0 rcvEnd →
        (∀ b ∈ (tcpUpdateSackList tp rcvStart rcvEnd).sackblks, seqGt b.start tp.rcvNxt = true) ∧
        (Sackblk.toSpan 0 ⟨rcvStart, rcvEnd⟩).Within ((mergeLoop tp.rcvNxt ⟨rcvStart, rcvEnd⟩ tp.sackblks).1.toSpan 0) ∧
        ∃ rest, List.Sublist rest tp.sackblks ∧
          (tcpUpdateSackList tp rcvStart rcvEnd).sackblks =
            if seqGt (mergeLoop tp.rcvNxt ⟨rcvStart, rcvEnd⟩ tp.sackblks).1.start tp.rcvNxt
            then (mergeLoop tp.rcvNxt ⟨rcvStart, rcvEnd⟩ tp.sackblks).1 :: rest
            else rest := by
  intro tp received
  have first : Reach 0 (tcpUpdateSackList ⟨1000, []⟩ 1010 1020) [Sackblk.toSpan 0 ⟨1010, 1020⟩] :=
    .update 1010 1020 (.start 1000 (by decide)) (by decide) (by decide) (by decide)
  have second := Reach.update 1030 1040 first (by decide) (by decide) (by decide)
  have advanced := Reach.advance 5 second (by decide)
  exact tcpUpdateSackList_report (Reach.update 1020 1030 advanced (by decide) (by decide) (by decide))

/-- The sequence numbers a block reports: the `end - start` from `start` on. -/
def Sackblk.covers (b : Sackblk) (x : UInt32) : Bool := (x - b.start).toNat < (b.stop - b.start).toNat

/-- From `rcv_nxt = 0`, a segment `[2^30, 3 * 2^30 - 1)` and then one
`[10, 2^30 + 10)`: the second overlaps the first, but the first ends more than
`2^31` past the second's start, so `SEQ_LEQ(head_blk.start, end)` fails and
the two are not merged. Both blocks report sequence number `2^30`. -/
theorem tcpUpdateSackList_overlapping_blocks :
    seqLt 0x40000000 0xBFFFFFFF = true ∧ seqLt 10 0x4000000A = true ∧
      (tcpUpdateSackList (tcpUpdateSackList ⟨0, []⟩ 0x40000000 0xBFFFFFFF) 10 0x4000000A).sackblks =
        [⟨10, 0x4000000A⟩, ⟨0x40000000, 0xBFFFFFFF⟩] ∧
      Sackblk.covers ⟨10, 0x4000000A⟩ 0x40000000 = true ∧
      Sackblk.covers ⟨0x40000000, 0xBFFFFFFF⟩ 0x40000000 = true := by
  decide

end Run

end Xnu.TcpSack
