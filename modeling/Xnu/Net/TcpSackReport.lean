import Xnu.Lib.Span
import Xnu.Net.TcpSack

namespace Xnu.TcpSack

/-! `tcp_update_sack_list` over positions of the stream, where the order is
linear, and the report RFC 2018 asks of it: at most `MAX_SACK_BLKS` blocks,
non-empty, apart from each other, each a union of received segments, the
newest first. -/

open Xnu.Span

variable {α : Type} [LinearOrder α]

/-- The loop of `tcp_update_sack_list` over positions. -/
def reportLoop (nxt : α) : Span α → List (Span α) → Span α × List (Span α)
  | head, [] => (head, [])
  | head, b :: rest =>
    if b.stop ≤ b.start ∨ b.start ≤ nxt then reportLoop nxt head rest
    else if head.Touches b then reportLoop nxt (head.hull b) rest
    else ((reportLoop nxt head rest).1, b :: (reportLoop nxt head rest).2)

/-- The report after a segment `seg` is received, `nxt` being `rcv_nxt`. -/
def reportUpdate (nxt : α) (seg : Span α) (blocks : List (Span α)) : List (Span α) :=
  if nxt < (reportLoop nxt seg blocks).1.start then
    (reportLoop nxt seg blocks).1 ::
      if maxSackBlks ≤ (reportLoop nxt seg blocks).2.length then (reportLoop nxt seg blocks).2.dropLast
      else (reportLoop nxt seg blocks).2
  else (reportLoop nxt seg blocks).2

/-- The report of the segments `received`. -/
structure ReportOk (received blocks : List (Span α)) : Prop where
  few : blocks.length ≤ maxSackBlks
  proper : ∀ b ∈ blocks, b.start < b.stop
  apart : blocks.Pairwise Apart
  union : ∀ b ∈ blocks, ∀ x, b.Contains x → ∃ g ∈ received, g.Within b ∧ g.Contains x

section Loop

variable {nxt : α}

theorem reportLoop_sublist : ∀ (head : Span α) (blocks : List (Span α)), List.Sublist (reportLoop nxt head blocks).2 blocks
  | _, [] => List.Sublist.slnil
  | head, b :: rest => by
    simp only [reportLoop]
    split
    · exact (reportLoop_sublist head rest).cons b
    · split
      · exact (reportLoop_sublist _ rest).cons b
      · exact (reportLoop_sublist head rest).cons_cons b

/-- The saved blocks are those not empty and past `nxt`. -/
theorem reportLoop_live : ∀ (head : Span α) (blocks : List (Span α)),
    ∀ b ∈ (reportLoop nxt head blocks).2, b.start < b.stop ∧ nxt < b.start
  | _, [], _, saved => by cases saved
  | head, c :: rest, b, saved => by
    simp only [reportLoop] at saved
    split at saved
    · exact reportLoop_live head rest b saved
    · rename_i kept
      split at saved
      · exact reportLoop_live _ rest b saved
      · rcases List.mem_cons.mp saved with rfl | later
        · simp only [not_or, not_le] at kept
          exact kept
        · exact reportLoop_live head rest b later

theorem within_reportLoop : ∀ (head : Span α) (blocks : List (Span α)), head.Within (reportLoop nxt head blocks).1
  | head, [] => Within.refl head
  | head, b :: rest => by
    simp only [reportLoop]
    split
    · exact within_reportLoop head rest
    · split
      · exact (within_hull_left head b).trans (within_reportLoop _ rest)
      · exact within_reportLoop head rest

/-- Each point of the merged block is in the segment or in a block merged into it. -/
theorem reportLoop_covers : ∀ (head : Span α) (blocks : List (Span α)) (x : α),
    (reportLoop nxt head blocks).1.Contains x →
      head.Contains x ∨ ∃ b ∈ blocks, b.Within (reportLoop nxt head blocks).1 ∧ b.Contains x
  | _, [], _, holds => Or.inl holds
  | head, b :: rest, x, holds => by
    simp only [reportLoop] at holds ⊢
    split at holds
    · rename_i dropped
      simp only [dropped, if_true]
      rcases reportLoop_covers head rest x holds with inHead | ⟨c, member, within, inC⟩
      · exact Or.inl inHead
      · exact Or.inr ⟨c, List.mem_cons_of_mem b member, within, inC⟩
    · rename_i kept
      simp only [kept, if_false]
      split at holds
      · rename_i touch
        simp only [touch, if_true]
        rcases reportLoop_covers _ rest x holds with inHull | ⟨c, member, within, inC⟩
        · rcases (contains_hull touch).mp inHull with inHead | inB
          · exact Or.inl inHead
          · exact Or.inr ⟨b, List.mem_cons_self, (within_hull_right head b).trans (within_reportLoop _ rest), inB⟩
        · exact Or.inr ⟨c, List.mem_cons_of_mem b member, within, inC⟩
      · rename_i apart
        simp only [apart, if_false]
        rcases reportLoop_covers head rest x holds with inHead | ⟨c, member, within, inC⟩
        · exact Or.inl inHead
        · exact Or.inr ⟨c, List.mem_cons_of_mem b member, within, inC⟩

/-- A block apart from the head and from every block the loop reads is apart
from the merged block. -/
theorem Apart.reportLoop {c : Span α} (proper : c.start ≤ c.stop) :
    ∀ (head : Span α) (blocks : List (Span α)), c.Apart head → (∀ b ∈ blocks, c.Apart b) →
      c.Apart (reportLoop nxt head blocks).1
  | _, [], fromHead, _ => fromHead
  | head, b :: rest, fromHead, fromBlocks => by
    have fromRest : ∀ d ∈ rest, c.Apart d := fun d member => fromBlocks d (List.mem_cons_of_mem b member)
    simp only [TcpSack.reportLoop]
    split
    · exact Apart.reportLoop proper head rest fromHead fromRest
    · split
      · rename_i touch
        exact Apart.reportLoop proper _ rest (fromHead.hull proper (fromBlocks b List.mem_cons_self) touch) fromRest
      · exact Apart.reportLoop proper head rest fromHead fromRest

/-- A saved block is apart from the merged block: it did not touch the head
when the loop reached it, and is apart from every block merged after. -/
theorem reportLoop_saved_apart : ∀ (head : Span α) (blocks : List (Span α)),
    blocks.Pairwise Apart → (∀ b ∈ blocks, b.start < b.stop) →
      ∀ b ∈ (reportLoop nxt head blocks).2, b.Apart (reportLoop nxt head blocks).1
  | _, [], _, _, _, saved => by cases saved
  | head, c :: rest, apart, proper, b, saved => by
    have restApart := (List.pairwise_cons.mp apart).2
    have restProper : ∀ d ∈ rest, d.start < d.stop := fun d member => proper d (List.mem_cons_of_mem c member)
    simp only [reportLoop] at saved ⊢
    split at saved
    · rename_i dropped
      simp only [dropped, if_true]
      exact reportLoop_saved_apart head rest restApart restProper b saved
    · rename_i kept
      simp only [kept, if_false]
      split at saved
      · rename_i touch
        simp only [touch, if_true]
        exact reportLoop_saved_apart _ rest restApart restProper b saved
      · rename_i untouched
        simp only [untouched, if_false]
        rcases List.mem_cons.mp saved with rfl | later
        · exact Apart.reportLoop (proper b List.mem_cons_self).le head rest
            (apart_iff_not_touches.mpr untouched).symm (List.pairwise_cons.mp apart).1
        · exact reportLoop_saved_apart head rest restApart restProper b later

end Loop

section Update

variable {nxt : α} {seg : Span α} {blocks received : List (Span α)}

/-- After an update every block starts past `nxt`. -/
theorem reportUpdate_above (proper : seg.start < seg.stop) :
    ∀ b ∈ reportUpdate nxt seg blocks, b.start < b.stop ∧ nxt < b.start := by
  have merged : seg.Within (reportLoop nxt seg blocks).1 := within_reportLoop seg blocks
  have live : ∀ b ∈ (reportLoop nxt seg blocks).2, b.start < b.stop ∧ nxt < b.start :=
    reportLoop_live seg blocks
  intro b member
  unfold reportUpdate at member
  split at member
  · rename_i past
    rcases List.mem_cons.mp member with rfl | saved
    · exact ⟨lt_of_le_of_lt merged.1 (lt_of_lt_of_le proper merged.2), past⟩
    · split at saved
      · exact live b (List.dropLast_subset _ saved)
      · exact live b saved
  · exact live b member

/-- The merged block, which holds the segment, goes first when it starts past
`nxt`; the other blocks keep the order they had. -/
theorem reportUpdate_order :
    seg.Within (reportLoop nxt seg blocks).1 ∧ ∃ rest, List.Sublist rest blocks ∧
      (nxt < (reportLoop nxt seg blocks).1.start → reportUpdate nxt seg blocks = (reportLoop nxt seg blocks).1 :: rest) ∧
      (¬nxt < (reportLoop nxt seg blocks).1.start → reportUpdate nxt seg blocks = rest) := by
  refine ⟨within_reportLoop seg blocks, ?_⟩
  have saved : List.Sublist (reportLoop nxt seg blocks).2 blocks := reportLoop_sublist seg blocks
  by_cases past : nxt < (reportLoop nxt seg blocks).1.start
  · refine ⟨if maxSackBlks ≤ (reportLoop nxt seg blocks).2.length then (reportLoop nxt seg blocks).2.dropLast
      else (reportLoop nxt seg blocks).2, ?_, fun _ => by rw [reportUpdate, if_pos past], fun stays => absurd past stays⟩
    split
    · exact (List.dropLast_sublist _).trans saved
    · exact saved
  · exact ⟨_, saved, fun moved => absurd moved past, fun _ => by rw [reportUpdate, if_neg past]⟩

/-- An update keeps the report of the segments received, with the new one. -/
theorem ReportOk.update (ok : ReportOk received blocks) (proper : seg.start < seg.stop) :
    ReportOk (seg :: received) (reportUpdate nxt seg blocks) where
  few := by
    have saved : (reportLoop nxt seg blocks).2.length ≤ blocks.length :=
      (reportLoop_sublist seg blocks).length_le
    have few := ok.few
    have six : maxSackBlks = 6 := rfl
    unfold reportUpdate
    split
    · split
      · simp only [List.length_cons, List.length_dropLast]
        omega
      · simp only [List.length_cons]
        omega
    · omega
  proper := fun b member => (reportUpdate_above proper b member).1
  apart := by
    have savedApart : ∀ b ∈ (reportLoop nxt seg blocks).2, b.Apart (reportLoop nxt seg blocks).1 :=
      reportLoop_saved_apart seg blocks ok.apart ok.proper
    have pairwise : (reportLoop nxt seg blocks).2.Pairwise Apart := ok.apart.sublist (reportLoop_sublist seg blocks)
    unfold reportUpdate
    split
    · refine List.pairwise_cons.mpr ⟨fun b member => (savedApart b ?_).symm, ?_⟩
      · split at member
        · exact List.dropLast_subset _ member
        · exact member
      · split
        · exact pairwise.sublist (List.dropLast_sublist _)
        · exact pairwise
    · exact pairwise
  union := by
    intro b member x holds
    have fromOld : ∀ c ∈ blocks, ∀ y, c.Contains y → ∃ g ∈ seg :: received, g.Within c ∧ g.Contains y :=
      fun c inBlocks y inC => by
        obtain ⟨g, received', within, inG⟩ := ok.union c inBlocks y inC
        exact ⟨g, List.mem_cons_of_mem seg received', within, inG⟩
    have saved : ∀ c ∈ (reportLoop nxt seg blocks).2, c ∈ blocks :=
      fun c member => (reportLoop_sublist seg blocks).subset member
    unfold reportUpdate at member
    split at member
    · rcases List.mem_cons.mp member with rfl | later
      · rcases reportLoop_covers seg blocks x holds with inSeg | ⟨c, inBlocks, within, inC⟩
        · exact ⟨seg, List.mem_cons_self, within_reportLoop seg blocks, inSeg⟩
        · obtain ⟨g, received', inner, inG⟩ := fromOld c inBlocks x inC
          exact ⟨g, received', inner.trans within, inG⟩
      · split at later
        · exact fromOld b (saved b (List.dropLast_subset _ later)) x holds
        · exact fromOld b (saved b later) x holds
    · exact fromOld b (saved b member) x holds

theorem ReportOk.nil (received : List (Span α)) : ReportOk received [] where
  few := Nat.zero_le _
  proper := fun _ member => by cases member
  apart := List.Pairwise.nil
  union := fun _ member => by cases member

end Update

end Xnu.TcpSack
