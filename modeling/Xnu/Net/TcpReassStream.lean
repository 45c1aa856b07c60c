import Xnu.Net.TcpReassCorrect

namespace Xnu.TcpReass

/-! Runs of `tcp_reass` on one established connection. Each call is the
stream's step (`tcpReass_refines`), so over a whole run the queue stays sound,
`rcv_nxt` stands past the bytes taken from the queue, and those bytes are the
stream the accepted segments carry, in order, each once. -/

/-- The calls of `tcp_reass` on a connection established with `rcv_nxt` at
`origin` and an empty queue, each with `SEQ_GEQ(th_seq, rcv_nxt)` and `*tlenp`
the segment's length. Ghost indices: the bytes taken from the queue, the bytes
appended to the socket buffer, the accepted segments as pieces of the stream
(with their `th_seq`), and whether `SS_CANTRCVMORE` was seen. -/
inductive Reach (origin : UInt32) : Tcpcb → List UInt8 → List UInt8 → List (Piece UInt32 UInt8) → Bool → Prop
  | init : Reach origin ⟨origin, [], 0, false, true⟩ [] [] [] false
  | step {tp : Tcpcb} {passed out : List UInt8} {acc : List (Piece UInt32 UInt8)} {cant : Bool}
      (th : Tcphdr) (tlen : Int32) (data : List UInt8) (env : Env) :
      Reach origin tp passed out acc cant → (th.seq - tp.rcvNxt).toInt32 ≥ 0 → tlen.toInt = data.length →
      Reach origin (tcpReass tp th tlen data env).1
        (passed ++ (streamStep passed.length tp th tlen data env).2)
        (out ++ (tcpReass tp th tlen data env).2.2.2)
        (if Accepts tp th env then acc ++ [⟨passed.length + (th.seq - tp.rcvNxt).toNat, data, th.seq⟩] else acc)
        (cant || env.cantRcvMore)

/-- What a reachable connection keeps: its queue is sound at the position of
the bytes taken, `rcv_nxt` stands there, the bytes taken were appended unless
`SS_CANTRCVMORE` was seen, what was taken and what is queued came from accepted
segments at the same positions, every byte of an accepted segment was taken or
is queued, and each accepted segment sits where its `th_seq` says. -/
structure StreamOk (origin : UInt32) (tp : Tcpcb) (passed out : List UInt8) (acc : List (Piece UInt32 UInt8))
    (cant : Bool) : Prop where
  segq : SegqOk passed.length tp
  rcvNxt_eq : tp.rcvNxt = origin + passed.length.toUInt32
  appended : cant = false → out = passed
  passed_sourced : ∀ j b, passed[j]? = some b → ∃ g ∈ acc, g.get j = some b
  held_sourced : ∀ x v, valueAt (held passed.length tp) x = some v → ∃ g ∈ acc, g.get x = some v
  covered : ∀ g ∈ acc, ∀ x, (g.get x).isSome → x < passed.length ∨ (valueAt (held passed.length tp) x).isSome
  seq_eq : ∀ g ∈ acc, origin + g.start.toUInt32 = g.info

theorem streamOk_init (origin : UInt32) : StreamOk origin ⟨origin, [], 0, false, true⟩ [] [] [] false := by
  have noQueue : ∀ x, valueAt (held ([] : List UInt8).length ⟨origin, [], 0, false, true⟩) x = none := fun _ => rfl
  refine ⟨⟨?entries, trivial, trivial, ?waiting, rfl, by simp, rfl, rfl⟩, (UInt32.add_zero origin).symm,
    fun _ => rfl, ?passed, ?queued, ?covered, ?seq⟩
  case entries => exact fun _ member => absurd member List.not_mem_nil
  case waiting => exact fun _ member => absurd member (by simp [held])
  case passed =>
    intro j b byte
    simp at byte
  case queued =>
    intro x v holds
    rw [noQueue] at holds
    cases holds
  case covered => exact fun _ member => absurd member List.not_mem_nil
  case seq => exact fun _ member => absurd member List.not_mem_nil

/-- One call keeps the invariant. -/
theorem StreamOk.step {origin : UInt32} {tp : Tcpcb} {passed out : List UInt8} {acc : List (Piece UInt32 UInt8)}
    {cant : Bool} (ok : StreamOk origin tp passed out acc cant) (th : Tcphdr) (tlen : Int32) (data : List UInt8)
    (env : Env) (geq : (th.seq - tp.rcvNxt).toInt32 ≥ 0) (lenOk : tlen.toInt = data.length) :
    StreamOk origin (tcpReass tp th tlen data env).1 (passed ++ (streamStep passed.length tp th tlen data env).2)
      (out ++ (tcpReass tp th tlen data env).2.2.2)
      (if Accepts tp th env then acc ++ [⟨passed.length + (th.seq - tp.rcvNxt).toNat, data, th.seq⟩] else acc)
      (cant || env.cantRcvMore) := by
  have refines : RefinesStep passed.length tp (tcpReass tp th tlen data env).1 env.cantRcvMore
      (tcpReass tp th tlen data env).2.2.2 (streamStep passed.length tp th tlen data env) :=
    tcpReass_refines ok.segq geq lenOk
  -- the accepted segments after the call: those before, and this one when it passes the limits
  have kept : ∀ g ∈ acc, g ∈ (if Accepts tp th env then
      acc ++ [⟨passed.length + (th.seq - tp.rcvNxt).toNat, data, th.seq⟩] else acc) := by
    intro g member
    split
    · exact List.mem_append_left _ member
    · exact member
  have fresh : Accepts tp th env → (⟨passed.length + (th.seq - tp.rcvNxt).toNat, data, th.seq⟩ : Piece UInt32 UInt8) ∈
      (if Accepts tp th env then acc ++ [⟨passed.length + (th.seq - tp.rcvNxt).toNat, data, th.seq⟩] else acc) := by
    intro accepts
    rw [if_pos accepts]
    exact List.mem_append_right _ (List.mem_singleton_self _)
  have added : ∀ g ∈ (if Accepts tp th env then
      acc ++ [⟨passed.length + (th.seq - tp.rcvNxt).toNat, data, th.seq⟩] else acc),
      g ∈ acc ∨ Accepts tp th env ∧ g = ⟨passed.length + (th.seq - tp.rcvNxt).toNat, data, th.seq⟩ := by
    intro g member
    split at member
    · rcases List.mem_append.mp member with old | new
      · exact Or.inl old
      · exact Or.inr ⟨‹_›, List.mem_singleton.mp new⟩
    · exact Or.inl member
  refine ⟨?segq, ?rcvNxt, ?appended, ?passedSourced, ?heldSourced, ?covered, ?seqEq⟩
  case segq =>
    rw [List.length_append]
    exact refines.ok
  case rcvNxt =>
    rw [refines.rcvNxt_eq, ok.rcvNxt_eq, add_toUInt32_add, List.length_append]
  case appended =>
    intro unseen
    obtain ⟨before, now⟩ := Bool.or_eq_false_iff.mp unseen
    rw [ok.appended before, refines.appended, now]
    rfl
  case passedSourced =>
    intro j b byte
    by_cases old : j < passed.length
    · rw [List.getElem?_append_left old] at byte
      obtain ⟨g, member, get⟩ := ok.passed_sourced j b byte
      exact ⟨g, kept g member, get⟩
    · -- a byte of this call's step, `k` past the bytes taken before
      obtain ⟨k, rfl⟩ : ∃ k, j = passed.length + k := ⟨j - passed.length, by omega⟩
      rw [List.getElem?_append_right (by omega), Nat.add_sub_cancel_left] at byte
      rcases streamStep_out ok.segq byte with queued | ⟨accepts, carried⟩
      · obtain ⟨g, member, get⟩ := ok.held_sourced _ _ queued
        exact ⟨g, kept g member, get⟩
      · exact ⟨_, fresh accepts, carried⟩
  case heldSourced =>
    rw [List.length_append, refines.held_eq]
    intro x v holds
    rcases streamStep_sourced ok.segq holds with queued | ⟨accepts, carried⟩
    · obtain ⟨g, member, get⟩ := ok.held_sourced _ _ queued
      exact ⟨g, kept g member, get⟩
    · exact ⟨_, fresh accepts, carried⟩
  case covered =>
    rw [List.length_append, refines.held_eq]
    intro g member x holds
    rcases added g member with old | ⟨accepts, rfl⟩
    · rcases ok.covered g old x holds with taken | queued
      · exact Or.inl (by omega)
      · exact streamStep_covers ok.segq (Or.inl queued)
    · exact streamStep_covers ok.segq (Or.inr ⟨accepts, holds⟩)
  case seqEq =>
    intro g member
    rcases added g member with old | ⟨_, rfl⟩
    · exact ok.seq_eq g old
    · show origin + (passed.length + (th.seq - tp.rcvNxt).toNat).toUInt32 = th.seq
      rw [← add_toUInt32_add, ← ok.rcvNxt_eq, Nat.toUInt32, UInt32.ofNat_toNat]
      exact add_sub_cancel tp.rcvNxt th.seq

theorem Reach.streamOk {origin : UInt32} {tp : Tcpcb} {passed out : List UInt8} {acc : List (Piece UInt32 UInt8)}
    {cant : Bool} (reach : Reach origin tp passed out acc cant) : StreamOk origin tp passed out acc cant := by
  induction reach with
  | init => exact streamOk_init origin
  | step th tlen data env _ geq lenOk ih => exact ih.step th tlen data env geq lenOk

/-- Over every run of `tcp_reass` on an established connection, in positions of
the stream: the queue is sorted with no two entries overlapping, all past
`rcv_nxt`, with `tqe_len` the bytes of each and `t_reassqlen` its length;
`rcv_nxt` stands past the bytes taken from the queue, which were appended unless
`SS_CANTRCVMORE` was seen; each byte taken or queued is one an accepted segment
carried at that position, which its `th_seq` names; and every byte of an
accepted segment was taken or is queued. -/
theorem tcpReass_stream {origin : UInt32} {tp : Tcpcb} {passed out : List UInt8}
    {acc : List (Piece UInt32 UInt8)} {cant : Bool} (reach : Reach origin tp passed out acc cant) :
    (held passed.length tp).Pairwise (fun a b => a.stop ≤ b.start) ∧
      (∀ s ∈ held passed.length tp, passed.length < s.start) ∧
      (∀ q ∈ tp.segq, q.len.toInt = q.data.length) ∧
      tp.reassqlen.toNat = tp.segq.length ∧
      tp.rcvNxt = origin + passed.length.toUInt32 ∧
      (cant = false → out = passed) ∧
      (∀ j b, passed[j]? = some b → ∃ g ∈ acc, g.get j = some b) ∧
      (∀ x v, valueAt (held passed.length tp) x = some v → ∃ g ∈ acc, g.get x = some v) ∧
      (∀ g ∈ acc, ∀ x, (g.get x).isSome → x < passed.length ∨ (valueAt (held passed.length tp) x).isSome) ∧
      (∀ g ∈ acc, origin + g.start.toUInt32 = g.info) := by
  have ok := reach.streamOk
  exact ⟨ok.segq.ordered.pairwise, ok.segq.ordered.lt_start ok.segq.waiting,
    fun q member => (ok.segq.entries q member).len_eq, ok.segq.count, ok.rcvNxt_eq, ok.appended,
    ok.passed_sourced, ok.held_sourced, ok.covered, ok.seq_eq⟩

theorem tcpReass_stream_reordered :
    ∃ tp passed out acc cant, Reach 0 tp passed out acc cant ∧ passed = [7, 8] ∧ out = passed ∧ tp.segq = [] ∧
      tp.rcvNxt = 0 + passed.length.toUInt32 ∧ ∀ j b, passed[j]? = some b → ∃ g ∈ acc, g.get j = some b := by
  -- the byte at sequence 1 arrives first and waits; the one at 0 then lets both through
  have first := Reach.step ⟨1, 0⟩ 1 [8] ⟨false, 65536, 65536, true, false⟩ (Reach.init : Reach 0 _ _ _ _ _)
    (by decide) (by decide)
  have second := Reach.step ⟨0, 0⟩ 1 [7] ⟨false, 65536, 65536, true, false⟩ first (by decide +kernel) (by decide)
  exact ⟨_, _, _, _, _, second, by decide +kernel, (tcpReass_stream second).2.2.2.2.2.1 (by decide +kernel),
    by decide +kernel, (tcpReass_stream second).2.2.2.2.1, (tcpReass_stream second).2.2.2.2.2.2.1⟩

/-- Two runs outside the claim as first stated. With `SS_CANTRCVMORE` the
segment at `rcv_nxt` is taken from the queue and freed, not appended, and
`rcv_nxt` still moves past it. And a queued entry whose front is trimmed to
`2^31` or more past `rcv_nxt` lies after `rcv_nxt` in the stream, but
`SEQ_GT(th_seq, rcv_nxt)` is false for it. -/
theorem tcpReass_freed_and_far_entry :
    (∃ tp passed out acc cant, Reach 0 tp passed out acc cant ∧ out = [] ∧ tp.rcvNxt = 1) ∧
      ∃ tp passed out acc cant, Reach 0 tp passed out acc cant ∧ ∃ q ∈ tp.segq, seqGt q.th.seq tp.rcvNxt = false := by
  have freed := Reach.step ⟨0, 0⟩ 1 [7] ⟨false, 65536, 65536, true, true⟩ (Reach.init : Reach 0 _ _ _ _ _)
    (by decide) (by decide)
  -- ten bytes from `2^31 - 5` wait; twelve from `2^31 - 10` then trim them to start at `2^31 + 2`
  have waits := Reach.step ⟨0x7ffffffb, 0⟩ 10 (List.replicate 10 1) ⟨false, 65536, 65536, true, false⟩
    (Reach.init : Reach 0 _ _ _ _ _) (by decide) (by decide)
  have trims := Reach.step ⟨0x7ffffff6, 0⟩ 12 (List.replicate 12 2) ⟨false, 65536, 65536, true, false⟩ waits
    (by decide +kernel) (by decide)
  exact ⟨⟨_, _, _, _, _, freed, by decide +kernel, by decide +kernel⟩,
    ⟨_, _, _, _, _, trims, by decide +kernel⟩⟩

end Xnu.TcpReass
