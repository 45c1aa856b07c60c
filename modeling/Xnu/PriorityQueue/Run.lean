import Mathlib.Data.Prod.Lex
import Xnu.Lib.Comparator
import Xnu.PriorityQueue.Ops

namespace Xnu.PriorityQueue

open LcrsTree

/-! Whole runs of a queue. A client starts from an empty queue and calls the
exported operations; between calls it may zero an element that is not queued
(`priority_queue_entry_init`) and rewrite the keys of elements that are not
queued. It changes a queued element's key only just before
`priority_queue_entry_increased` or `_decreased`, in the direction the call
names. Keys are read through `compare`, which agrees with an order of ranks. -/

/-- The queue a call leaves: the one it returns, or `q` itself where it returns
nothing. -/
def PqState.after {α : Type} (q : PqState) (result : Option (PqState × α)) : PqState :=
  (result.map Prod.fst).getD q

@[simp] theorem PqState.after_some {α : Type} (q q' : PqState) (a : α) : q.after (some (q', a)) = q' := rfl

section Order

variable {β : Type} [LinearOrder β] {compare : Nat → Nat → Int} {rank : Nat → β}

/-- A sound comparator decides each meld of `merge_pair_inline` by rank. -/
theorem beats_decides (sound : CompareSound compare rank) (maxHeap : Bool) :
    Heap.Decides (beats maxHeap compare) (RankLe maxHeap rank) := by
  intro a b
  have pos := sound.pos_iff a b
  cases maxHeap
  · -- a min heap puts `a` below `b` when `compare a b < 0`
    simp only [beats, mergeParentIsSubtreeB, RankLe, Bool.false_eq_true, if_false,
      decide_eq_true_eq, decide_eq_false_iff_not, not_lt]
    refine ⟨fun neg => not_lt.mp fun lt => by have := pos.mpr lt; omega, fun nonneg => ?_⟩
    rcases nonneg.lt_or_eq with positive | zero
    · exact (pos.mp positive).le
    · exact (sound.eq_of_zero a b zero.symm).le
  · simp only [beats, mergeParentIsSubtreeB, RankLe, if_true, decide_eq_true_eq,
      decide_eq_false_iff_not, gt_iff_lt]
    exact ⟨fun positive => (pos.mp positive).le, fun notPos => not_lt.mp (pos.not.mp notPos)⟩

/-- What every reachable queue satisfies: it holds a heap of exactly the queued
elements, ordered by rank. -/
def Good (maxHeap : Bool) (rank : Nat → β) (q : PqState) (contents : List Nat) : Prop :=
  ∃ hq, Holds q hq ∧ (Heap.membersOf hq).Perm contents ∧ ∀ h ∈ hq, h.Ordered (RankLe maxHeap rank)

variable {maxHeap : Bool} {q q' : PqState} {contents : List Nat}

theorem good_init (mem : Memory) : Good maxHeap rank ⟨none, mem⟩ [] :=
  ⟨none, rfl, List.Perm.refl _, fun _ absent => by cases absent⟩

/-- A queue with a queued element holds a heap. -/
theorem Good.holds_some {e : Nat} (good : Good maxHeap rank q contents) (member : e ∈ contents) :
    ∃ h, Holds q (some h) ∧ h.members.Perm contents ∧ h.Ordered (RankLe maxHeap rank) := by
  obtain ⟨hq, holds, perm, ordered⟩ := good
  cases hq with
  | none =>
    rw [Heap.membersOf_none] at perm
    rw [← perm.nil_eq] at member
    cases member
  | some h => exact ⟨h, holds, perm, ordered h rfl⟩

theorem Good.entryInit {e : Nat} (good : Good maxHeap rank q contents) (out : e ∉ contents) :
    Good maxHeap rank ⟨q.pqRoot, Function.update q.mem e PriorityQueueEntry.init⟩ contents := by
  obtain ⟨hq, holds, perm, ordered⟩ := good
  refine ⟨hq, holds.frame_of_eq fun w member => ?_, perm, ordered⟩
  exact Function.update_of_ne (fun (same : w = e) => out (same ▸ perm.subset member)) _ _

theorem Good.rekey {rank' : Nat → β} (good : Good maxHeap rank q contents)
    (same : ∀ w ∈ contents, rank' w = rank w) : Good maxHeap rank' q contents := by
  obtain ⟨hq, holds, perm, ordered⟩ := good
  refine ⟨hq, holds, perm, fun h found => (ordered h found).imp_on fun a ha b hb below => ?_⟩
  have inQueue : ∀ w ∈ h.members, w ∈ contents := by
    intro w hw
    cases found
    exact perm.subset hw
  exact RankLe.of_eq (same a (inQueue a ha)) (same b (inQueue b hb)) below

theorem Good.insert {e : Nat} (sound : CompareSound compare rank) (good : Good maxHeap rank q contents)
    (out : e ∉ contents) (zeroed : q.mem e = PriorityQueueEntry.init) :
    Good maxHeap rank (insert maxHeap compare q e).1 (e :: contents) := by
  obtain ⟨hq, holds, perm, ordered⟩ := good
  have rooted : Rooted q.mem ⟨e, leaf⟩ := ⟨by simp [zeroed, PriorityQueueEntry.init], trivial, trivial⟩
  have alone : (e :: Heap.membersOf hq).Nodup :=
    List.nodup_cons.mpr ⟨fun inQueue => out (perm.subset inQueue), holds.nodup⟩
  have nodup : (Heap.membersOf hq ++ (⟨e, leaf⟩ : Heap Nat).members).Nodup := by
    show (_ ++ [e]).Nodup
    exact (List.perm_append_singleton e _).nodup_iff.mpr alone
  obtain ⟨inserted, -⟩ := insert_spec maxHeap compare holds rooted nodup
    (fun _ => by simp [zeroed, PriorityQueueEntry.init])
  refine ⟨_, inserted, ?_, ?_⟩
  · have merged := Heap.merge_perm (beats maxHeap compare) hq ⟨e, leaf⟩
    rw [Heap.membersOf_some]
    exact merged.trans ((List.perm_append_singleton e _).trans (perm.cons e))
  · intro x same
    cases same
    exact Heap.merge_ordered (beats_decides sound maxHeap) ordered (Heap.ordered_single _ e)

theorem Good.removeRoot {fuel r : Nat} (sound : CompareSound compare rank)
    (good : Good maxHeap rank q contents) (enough : contents.length ≤ fuel)
    (run : priorityQueueRemoveRoot maxHeap compare fuel q = some (q', r)) :
    Good maxHeap rank q' (contents.erase r) := by
  obtain ⟨hq, holds, perm, ordered⟩ := good
  cases hq with
  | none =>
    simp [priorityQueueRemoveRoot, holds.pqRoot] at run
  | some h =>
    rw [Heap.membersOf_some] at perm
    obtain ⟨q'', run', holds', -⟩ :=
      priorityQueueRemoveRoot_spec maxHeap compare holds (perm.length_eq ▸ enough)
    rw [run'] at run
    cases run
    refine ⟨_, holds', ?_, Heap.meld_ordered (beats_decides sound maxHeap) (ordered h rfl).2⟩
    have erased := perm.symm.erase h.root
    rw [Heap.members, List.erase_cons_head] at erased
    exact (Heap.meld_perm _ _).trans erased.symm

theorem Good.remove {fuel e : Nat} {wasRoot : Bool} (sound : CompareSound compare rank)
    (good : Good maxHeap rank q contents) (member : e ∈ contents) (enough : contents.length ≤ fuel)
    (run : remove maxHeap compare fuel q e = some (q', wasRoot)) :
    Good maxHeap rank q' (contents.erase e) := by
  obtain ⟨h, holds, perm, ordered⟩ := good.holds_some member
  obtain ⟨q'', wasRoot', run', holds', -, -⟩ := remove_spec maxHeap compare holds
    (perm.symm.subset member) (perm.length_eq ▸ enough)
  rw [run'] at run
  cases run
  refine ⟨_, holds', ?_, Heap.remove_ordered (beats_decides sound maxHeap) e ordered⟩
  have removed := (Heap.remove_perm (beats maxHeap compare) holds.2.2.2.2
    (perm.symm.subset member)).trans (perm.trans (List.perm_cons_erase member))
  exact removed.cons_inv

/-- `sift_up` after `e` moved up in the order keeps the invariant. -/
theorem Good.siftUp {e : Nat} {becameRoot : Bool} {compare' : Nat → Nat → Int} {rank' : Nat → β}
    (good : Good maxHeap rank q contents) (member : e ∈ contents) (sound' : CompareSound compare' rank')
    (kept : ∀ w ∈ contents, w ≠ e → rank' w = rank w) (raised : RankLe maxHeap id (rank e) (rank' e))
    (run : siftUp maxHeap compare' q e = some (q', becameRoot)) :
    Good maxHeap rank' q' contents := by
  obtain ⟨h, holds, perm, ordered⟩ := good.holds_some member
  obtain ⟨q'', becameRoot', run', holds', -⟩ := siftUp_spec maxHeap compare' holds (perm.symm.subset member)
  rw [run'] at run
  cases run
  have keep : ∀ a ∈ h.members, ∀ b ∈ h.members, a ≠ e → b ≠ e →
      RankLe maxHeap rank a b → RankLe maxHeap rank' a b := fun a ha b hb atA atB =>
    RankLe.of_eq (kept a (perm.subset ha) atA) (kept b (perm.subset hb) atB)
  have up : ∀ z ∈ h.members, RankLe maxHeap rank z e → RankLe maxHeap rank' z e := by
    intro z hz below
    by_cases atE : z = e
    · subst atE
      exact refl_of (RankLe maxHeap rank') z
    · exact RankLe.of_raised (kept z (perm.subset hz) atE) raised below
  refine ⟨_, holds', ?_, fun x same => ?_⟩
  · exact (Heap.raise_perm _ e holds.2.2.2.2).trans perm
  · cases same
    exact Heap.raise_ordered (beats_decides sound' maxHeap) e holds.2.2.2.2 ordered keep up

/-- `sift_down` keeps the invariant whichever way `e` moved. -/
theorem Good.siftDown {fuel e : Nat} {wasRoot : Bool} {compare' : Nat → Nat → Int} {rank' : Nat → β}
    (good : Good maxHeap rank q contents) (member : e ∈ contents) (sound' : CompareSound compare' rank')
    (kept : ∀ w ∈ contents, w ≠ e → rank' w = rank w) (enough : contents.length ≤ fuel)
    (run : siftDown maxHeap compare' fuel q e = some (q', wasRoot)) :
    Good maxHeap rank' q' contents := by
  obtain ⟨h, holds, perm, ordered⟩ := good.holds_some member
  have inHeap := perm.symm.subset member
  obtain ⟨q'', wasRoot', run', holds', -⟩ :=
    siftDown_spec maxHeap compare' holds inHeap (perm.length_eq ▸ enough)
  rw [run'] at run
  cases run
  have keep : ∀ a ∈ h.members, ∀ b ∈ h.members, a ≠ e → b ≠ e →
      RankLe maxHeap rank a b → RankLe maxHeap rank' a b := fun a ha b hb atA atB =>
    RankLe.of_eq (kept a (perm.subset ha) atA) (kept b (perm.subset hb) atB)
  refine ⟨_, holds', ?_, fun x same => ?_⟩
  · have merged := Heap.merge_perm (beats maxHeap compare') (Heap.remove (beats maxHeap compare') e h) ⟨e, leaf⟩
    refine merged.trans ((List.perm_append_singleton e _).trans ?_)
    exact (Heap.remove_perm _ holds.2.2.2.2 inHeap).trans perm
  · cases same
    exact Heap.merge_ordered (beats_decides sound' maxHeap)
      (Heap.remove_ordered_of_kept (beats_decides sound' maxHeap) holds.2.2.2.2 inHeap ordered keep)
      (Heap.ordered_single _ e)

theorem Good.increased {fuel e : Nat} {becameRoot : Bool} {compare' : Nat → Nat → Int}
    {rank' : Nat → β} (good : Good maxHeap rank q contents) (member : e ∈ contents)
    (sound' : CompareSound compare' rank') (kept : ∀ w ∈ contents, w ≠ e → rank' w = rank w)
    (larger : rank e ≤ rank' e) (enough : contents.length ≤ fuel)
    (run : entryIncreased maxHeap compare' fuel q e = some (q', becameRoot)) :
    Good maxHeap rank' q' contents := by
  cases maxHeap
  · exact good.siftDown member sound' kept enough run
  · exact good.siftUp member sound' kept larger run

theorem Good.decreased {fuel e : Nat} {becameRoot : Bool} {compare' : Nat → Nat → Int}
    {rank' : Nat → β} (good : Good maxHeap rank q contents) (member : e ∈ contents)
    (sound' : CompareSound compare' rank') (kept : ∀ w ∈ contents, w ≠ e → rank' w = rank w)
    (smaller : rank' e ≤ rank e) (enough : contents.length ≤ fuel)
    (run : entryDecreased maxHeap compare' fuel q e = some (q', becameRoot)) :
    Good maxHeap rank' q' contents := by
  cases maxHeap
  · exact good.siftUp member sound' kept smaller run
  · exact good.siftDown member sound' kept enough run

/-! Every call on a queue that keeps the invariant returns, with as many meld
rounds as there are queued elements. -/

theorem Good.removeRoot_returns {fuel : Nat} (good : Good maxHeap rank q contents) (nonempty : contents ≠ [])
    (enough : contents.length ≤ fuel) :
    ∃ q' r, priorityQueueRemoveRoot maxHeap compare fuel q = some (q', r) ∧ q.pqRoot = some r := by
  obtain ⟨e, member⟩ := List.exists_mem_of_ne_nil contents nonempty
  obtain ⟨h, holds, perm, -⟩ := good.holds_some member
  obtain ⟨q', run, -, -⟩ := priorityQueueRemoveRoot_spec maxHeap compare holds (perm.length_eq ▸ enough)
  exact ⟨q', h.root, run, holds.1⟩

theorem Good.remove_returns {fuel e : Nat} (good : Good maxHeap rank q contents) (member : e ∈ contents)
    (enough : contents.length ≤ fuel) : ∃ q' wasRoot, PriorityQueue.remove maxHeap compare fuel q e = some (q', wasRoot) := by
  obtain ⟨h, holds, perm, -⟩ := good.holds_some member
  obtain ⟨q', wasRoot, run, -⟩ :=
    remove_spec maxHeap compare holds (perm.symm.subset member) (perm.length_eq ▸ enough)
  exact ⟨q', wasRoot, run⟩

/-- `sift_up` and `sift_down` both return, whichever comparator the new key is
read through. -/
theorem Good.sift_returns {fuel e : Nat} (good : Good maxHeap rank q contents) (member : e ∈ contents)
    (enough : contents.length ≤ fuel) (compare' : Nat → Nat → Int) :
    (∃ q' becameRoot, PriorityQueue.siftUp maxHeap compare' q e = some (q', becameRoot)) ∧
      ∃ q' wasRoot, PriorityQueue.siftDown maxHeap compare' fuel q e = some (q', wasRoot) := by
  obtain ⟨h, holds, perm, -⟩ := good.holds_some member
  obtain ⟨q', becameRoot, up, -⟩ := siftUp_spec maxHeap compare' holds (perm.symm.subset member)
  obtain ⟨q'', wasRoot, down, -⟩ :=
    siftDown_spec maxHeap compare' holds (perm.symm.subset member) (perm.length_eq ▸ enough)
  exact ⟨⟨q', becameRoot, up⟩, q'', wasRoot, down⟩

theorem Good.increased_returns {fuel e : Nat} (good : Good maxHeap rank q contents) (member : e ∈ contents)
    (enough : contents.length ≤ fuel) (compare' : Nat → Nat → Int) :
    ∃ q' becameRoot, entryIncreased maxHeap compare' fuel q e = some (q', becameRoot) := by
  obtain ⟨up, down⟩ := good.sift_returns member enough compare'
  cases maxHeap
  · exact down
  · exact up

theorem Good.decreased_returns {fuel e : Nat} (good : Good maxHeap rank q contents) (member : e ∈ contents)
    (enough : contents.length ≤ fuel) (compare' : Nat → Nat → Int) :
    ∃ q' becameRoot, entryDecreased maxHeap compare' fuel q e = some (q', becameRoot) := by
  obtain ⟨up, down⟩ := good.sift_returns member enough compare'
  cases maxHeap
  · exact up
  · exact down

/-! So the queue each call leaves keeps the invariant. -/

theorem Good.removeRoot_after {fuel : Nat} (sound : CompareSound compare rank) (good : Good maxHeap rank q contents)
    (nonempty : contents ≠ []) (enough : contents.length ≤ fuel) :
    Good maxHeap rank (q.after (priorityQueueRemoveRoot maxHeap compare fuel q)) (contents.erase (q.pqRoot.getD 0)) := by
  obtain ⟨q', r, run, root⟩ := good.removeRoot_returns nonempty enough
  rw [run, root, PqState.after_some, Option.getD_some]
  exact good.removeRoot sound enough run

theorem Good.remove_after {fuel e : Nat} (sound : CompareSound compare rank) (good : Good maxHeap rank q contents)
    (member : e ∈ contents) (enough : contents.length ≤ fuel) :
    Good maxHeap rank (q.after (PriorityQueue.remove maxHeap compare fuel q e)) (contents.erase e) := by
  obtain ⟨q', wasRoot, run⟩ := good.remove_returns member enough
  rw [run, PqState.after_some]
  exact good.remove sound member enough run

theorem Good.increased_after {fuel e : Nat} {compare' : Nat → Nat → Int} {rank' : Nat → β}
    (good : Good maxHeap rank q contents) (member : e ∈ contents) (sound' : CompareSound compare' rank')
    (kept : ∀ w ∈ contents, w ≠ e → rank' w = rank w) (larger : rank e ≤ rank' e) (enough : contents.length ≤ fuel) :
    Good maxHeap rank' (q.after (entryIncreased maxHeap compare' fuel q e)) contents := by
  obtain ⟨q', becameRoot, run⟩ := good.increased_returns member enough compare'
  rw [run, PqState.after_some]
  exact good.increased member sound' kept larger enough run

theorem Good.decreased_after {fuel e : Nat} {compare' : Nat → Nat → Int} {rank' : Nat → β}
    (good : Good maxHeap rank q contents) (member : e ∈ contents) (sound' : CompareSound compare' rank')
    (kept : ∀ w ∈ contents, w ≠ e → rank' w = rank w) (smaller : rank' e ≤ rank e) (enough : contents.length ≤ fuel) :
    Good maxHeap rank' (q.after (entryDecreased maxHeap compare' fuel q e)) contents := by
  obtain ⟨q', becameRoot, run⟩ := good.decreased_returns member enough compare'
  rw [run, PqState.after_some]
  exact good.decreased member sound' kept smaller enough run

end Order

/-! The comparators of `pqueue_entry_traits` are sound, each for the order of
its keys. -/

theorem deadlineCompare_sound (deadline : Nat → UInt64) :
    CompareSound (deadlineCompare deadline) fun e => (deadline e).toNat := by
  constructor
  · intro a b
    unfold deadlineCompare priorityHeapCompareInts
    rw [← UInt64.lt_iff_toNat_lt]
    split <;> simp_all
  · intro a b zero
    unfold deadlineCompare priorityHeapCompareInts at zero
    split at zero <;> simp at zero

theorem schedCompare_sound (key : Nat → Int16) :
    CompareSound (schedCompare key) fun e => (key e).toInt := by
  constructor
  · intro a b
    unfold schedCompare
    omega
  · intro a b zero
    unfold schedCompare at zero
    omega

/-- The order of `sched_stable` entries: the key, then the younger stamp among
preempted entries and the older one among the others. -/
def stableRank (key : Nat → Int16) (stamp : Nat → UInt64) (e : Nat) : Int ×ₗ Int :=
  toLex ((key e).toInt,
    if key e &&& priorityQueueEntryPreempted ≠ 0 then ((stamp e).toNat : Int) else -((stamp e).toNat : Int))

theorem stableCompare_sound (key : Nat → Int16) (stamp : Nat → UInt64) :
    CompareSound (stableCompare key stamp) (stableRank key stamp) := by
  constructor
  · intro a b
    unfold stableCompare stableRank
    rw [Prod.Lex.toLex_lt_toLex]
    by_cases keys : key a = key b
    · simp only [keys, ne_eq, not_true_eq_false, if_false, lt_self_iff_false, true_and, false_or]
      by_cases stamps : stamp a = stamp b
      · simp [stamps]
      · have differ : (stamp a).toNat ≠ (stamp b).toNat := fun same => stamps (UInt64.toNat_inj.mp same)
        by_cases preempted : key b &&& priorityQueueEntryPreempted = 0 <;>
          simp only [stamps, preempted, not_false_eq_true, if_true, if_false, not_true_eq_false,
            gt_iff_lt, UInt64.lt_iff_toNat_lt] <;>
          split <;> omega
    · have distinct : (key a).toInt ≠ (key b).toInt := fun same => keys (Int16.toInt_inj.mp same)
      simp only [keys, ne_eq, not_false_eq_true, if_true]
      omega
  · intro a b zero
    unfold stableCompare at zero
    unfold stableRank
    by_cases keys : key a = key b
    · by_cases stamps : stamp a = stamp b
      · simp [keys, stamps]
      · simp only [keys, stamps, ne_eq, not_true_eq_false, not_false_eq_true, if_true, if_false] at zero
        split at zero <;> split at zero <;> omega
    · simp only [keys, ne_eq, not_false_eq_true, if_true] at zero
      have distinct : (key a).toInt ≠ (key b).toInt := fun same => keys (Int16.toInt_inj.mp same)
      omega

variable {β : Type} [LinearOrder β]

/-- The queues a client reaches, with the comparator in force, the order of
ranks it agrees with, and the queued elements. A call's queue is the one it
leaves (`PqState.after`): no step assumes that the call returns, and
`reachable_wellFormed` shows that each does. -/
inductive Reachable (maxHeap : Bool) : PqState → (Nat → Nat → Int) → (Nat → β) → List Nat → Prop
  | init (mem : Memory) {compare : Nat → Nat → Int} {rank : Nat → β} :
      CompareSound compare rank → Reachable maxHeap ⟨none, mem⟩ compare rank []
  | entryInit {q compare rank contents} (e : Nat) :
      Reachable maxHeap q compare rank contents → e ∉ contents →
      Reachable maxHeap ⟨q.pqRoot, Function.update q.mem e PriorityQueueEntry.init⟩ compare rank contents
  | rekey {q compare rank contents} {compare' : Nat → Nat → Int} {rank' : Nat → β} :
      Reachable maxHeap q compare rank contents → CompareSound compare' rank' →
      (∀ w ∈ contents, rank' w = rank w) → Reachable maxHeap q compare' rank' contents
  | insert {q compare rank contents} (e : Nat) :
      Reachable maxHeap q compare rank contents → e ∉ contents →
      q.mem e = PriorityQueueEntry.init →
      Reachable maxHeap (insert maxHeap compare q e).1 compare rank (e :: contents)
  | removeRoot {q compare rank contents} (fuel : Nat) :
      Reachable maxHeap q compare rank contents → contents ≠ [] → contents.length ≤ fuel →
      Reachable maxHeap (q.after (priorityQueueRemoveRoot maxHeap compare fuel q)) compare rank
        (contents.erase (q.pqRoot.getD 0))
  | remove {q compare rank contents} (fuel e : Nat) :
      Reachable maxHeap q compare rank contents → e ∈ contents → contents.length ≤ fuel →
      Reachable maxHeap (q.after (remove maxHeap compare fuel q e)) compare rank (contents.erase e)
  | increased {q compare rank contents} {compare' : Nat → Nat → Int} {rank' : Nat → β} (fuel e : Nat) :
      Reachable maxHeap q compare rank contents → e ∈ contents → CompareSound compare' rank' →
      (∀ w ∈ contents, w ≠ e → rank' w = rank w) → rank e ≤ rank' e → contents.length ≤ fuel →
      Reachable maxHeap (q.after (entryIncreased maxHeap compare' fuel q e)) compare' rank' contents
  | decreased {q compare rank contents} {compare' : Nat → Nat → Int} {rank' : Nat → β} (fuel e : Nat) :
      Reachable maxHeap q compare rank contents → e ∈ contents → CompareSound compare' rank' →
      (∀ w ∈ contents, w ≠ e → rank' w = rank w) → rank' e ≤ rank e → contents.length ≤ fuel →
      Reachable maxHeap (q.after (entryDecreased maxHeap compare' fuel q e)) compare' rank' contents

theorem Reachable.good {maxHeap : Bool} {q : PqState} {compare : Nat → Nat → Int} {rank : Nat → β}
    {contents : List Nat} (reach : Reachable maxHeap q compare rank contents) :
    CompareSound compare rank ∧ Good maxHeap rank q contents := by
  induction reach with
  | init mem sound => exact ⟨sound, good_init mem⟩
  | entryInit e _ out ih => exact ⟨ih.1, ih.2.entryInit out⟩
  | rekey _ sound' same ih => exact ⟨sound', ih.2.rekey same⟩
  | insert e _ out zeroed ih => exact ⟨ih.1, ih.2.insert ih.1 out zeroed⟩
  | removeRoot fuel _ nonempty enough ih => exact ⟨ih.1, ih.2.removeRoot_after ih.1 nonempty enough⟩
  | remove fuel e _ member enough ih => exact ⟨ih.1, ih.2.remove_after ih.1 member enough⟩
  | increased fuel e _ member sound' kept larger enough ih =>
    exact ⟨sound', ih.2.increased_after member sound' kept larger enough⟩
  | decreased fuel e _ member sound' kept smaller enough ih =>
    exact ⟨sound', ih.2.decreased_after member sound' kept smaller enough⟩

/-- Every reachable queue is a well-formed pairing heap of exactly its queued
elements, each once, ordered under the comparator, with the root above all;
and each call a client may make next returns, with as many meld rounds as
there are queued elements. -/
theorem reachable_wellFormed {maxHeap : Bool} {q : PqState} {compare : Nat → Nat → Int}
    {rank : Nat → β} {contents : List Nat} (reach : Reachable maxHeap q compare rank contents) :
    contents.Nodup ∧
      (∃ hq, Holds q hq ∧ (Heap.membersOf hq).Perm contents ∧
        ∀ h ∈ hq, h.Ordered (ChildFits maxHeap compare) ∧
          ∀ z ∈ h.members, ChildFits maxHeap compare z h.root) ∧
      ∀ fuel, contents.length ≤ fuel →
        (contents ≠ [] →
          ∃ q' r, priorityQueueRemoveRoot maxHeap compare fuel q = some (q', r) ∧ q.pqRoot = some r) ∧
        ∀ e ∈ contents, (∃ q' wasRoot, remove maxHeap compare fuel q e = some (q', wasRoot)) ∧
          ∀ compare' : Nat → Nat → Int,
            (∃ q' becameRoot, entryIncreased maxHeap compare' fuel q e = some (q', becameRoot)) ∧
            ∃ q' becameRoot, entryDecreased maxHeap compare' fuel q e = some (q', becameRoot) := by
  obtain ⟨sound, good⟩ := reach.good
  have ⟨hq, holds, perm, ordered⟩ := good
  have fits : ∀ c p, RankLe maxHeap rank c p → ChildFits maxHeap compare c p :=
    fun c p below => (sound.childFits_iff maxHeap c p).mpr below
  refine ⟨perm.nodup_iff.mp holds.nodup, ⟨hq, holds, perm, fun h found => ?_⟩, fun fuel enough => ?_⟩
  · have byRank := ordered h found
    exact ⟨byRank.imp_on fun a _ b _ => fits a b, fun z member => fits z h.root (byRank.le_root z member)⟩
  · refine ⟨fun nonempty => good.removeRoot_returns nonempty enough, fun e member => ?_⟩
    exact ⟨good.remove_returns member enough, fun compare' =>
      ⟨good.increased_returns member enough compare', good.decreased_returns member enough compare'⟩⟩

/-- A max sched queue: 1, 2 and 3 inserted with their own numbers as keys, the
root removed, the key of 1 raised to 5, 2 removed, and 3 zeroed by
`priority_queue_entry_init` and inserted again. -/
def sampleSchedQueue : PqState :=
  let q₃ := (insert true (schedCompare fun e => e.toInt16) (insert true (schedCompare fun e => e.toInt16)
    (insert true (schedCompare fun e => e.toInt16) ⟨none, fun _ => PriorityQueueEntry.init⟩ 1).1 2).1 3).1
  let q₄ := q₃.after (priorityQueueRemoveRoot true (schedCompare fun e => e.toInt16) 3 q₃)
  let q₅ := q₄.after (entryIncreased true (schedCompare fun e => if e = 1 then 5 else e.toInt16) 2 q₄ 1)
  let q₆ := q₅.after (remove true (schedCompare fun e => if e = 1 then 5 else e.toInt16) 2 q₅ 2)
  (insert true (schedCompare fun e => if e = 1 then 5 else e.toInt16)
    ⟨q₆.pqRoot, Function.update q₆.mem 3 PriorityQueueEntry.init⟩ 3).1

theorem reachable_wellFormed_sample :
    [3, 1].Nodup ∧
      (∃ hq, Holds sampleSchedQueue hq ∧ (Heap.membersOf hq).Perm [3, 1] ∧
        ∀ h ∈ hq, h.Ordered (ChildFits true (schedCompare fun e => if e = 1 then 5 else e.toInt16)) ∧
          ∀ z ∈ h.members, ChildFits true (schedCompare fun e => if e = 1 then 5 else e.toInt16) z h.root) ∧
      ∀ fuel, [3, 1].length ≤ fuel →
        ([3, 1] ≠ [] → ∃ q' r, priorityQueueRemoveRoot true (schedCompare fun e => if e = 1 then 5 else e.toInt16)
          fuel sampleSchedQueue = some (q', r) ∧ sampleSchedQueue.pqRoot = some r) ∧
        ∀ e ∈ [3, 1], (∃ q' wasRoot, remove true (schedCompare fun e => if e = 1 then 5 else e.toInt16) fuel
            sampleSchedQueue e = some (q', wasRoot)) ∧
          ∀ compare' : Nat → Nat → Int,
            (∃ q' becameRoot, entryIncreased true compare' fuel sampleSchedQueue e = some (q', becameRoot)) ∧
            ∃ q' becameRoot, entryDecreased true compare' fuel sampleSchedQueue e = some (q', becameRoot) := by
  have inserted : Reachable true (insert true (schedCompare fun e => e.toInt16) (insert true (schedCompare fun e => e.toInt16)
      (insert true (schedCompare fun e => e.toInt16) ⟨none, fun _ => PriorityQueueEntry.init⟩ 1).1 2).1 3).1
      (schedCompare fun e => e.toInt16) (fun e => (e.toInt16 : Int16).toInt) [3, 2, 1] :=
    .insert 3 (.insert 2 (.insert 1 (.init _ (schedCompare_sound _)) (by simp) rfl) (by simp) rfl) (by simp) rfl
  have removed : Reachable true _ (schedCompare fun e => e.toInt16) (fun e => (e.toInt16 : Int16).toInt) [2, 1] :=
    inserted.removeRoot 3 (by simp) (by simp)
  -- the key of 1 goes up from 1 to 5 just before `priority_queue_entry_increased`
  have raised : Reachable true _ (schedCompare fun e => if e = 1 then 5 else e.toInt16)
      (fun e => ((if e = 1 then 5 else e.toInt16 : Int16)).toInt) [2, 1] :=
    removed.increased 2 1 (by simp) (schedCompare_sound _) (by decide) (by decide) (by simp)
  have reach : Reachable true sampleSchedQueue (schedCompare fun e => if e = 1 then 5 else e.toInt16)
      (fun e => ((if e = 1 then 5 else e.toInt16 : Int16)).toInt) [3, 1] :=
    .insert 3 (.entryInit 3 (raised.remove 2 2 (by simp) (by simp)) (by simp)) (by simp) rfl
  exact reachable_wellFormed reach

/-- Inserting the old root again after `_priority_queue_remove_root`, without
`priority_queue_entry_init`, links the remaining root to itself through the
stale `child`: the queue then holds no heap at all. -/
theorem reinsert_after_removeRoot_malformed :
    ∃ q, priorityQueueRemoveRoot true (schedCompare fun e => if e = 2 then 2 else 1) 2
        (insert true (schedCompare fun e => if e = 2 then 2 else 1)
          (insert true (schedCompare fun e => if e = 2 then 2 else 1)
            ⟨none, fun _ => PriorityQueueEntry.init⟩ 1).1 2).1 = some (q, 2) ∧
      Holds q (some ⟨1, leaf⟩) ∧
      ¬ ∃ hq, Holds (insert true (schedCompare fun e => if e = 2 then 2 else 1) q 2).1 hq := by
  refine ⟨_, rfl, ⟨rfl, rfl, rfl, ⟨rfl, trivial, trivial⟩, by decide⟩, ?_⟩
  rintro ⟨hq, holds⟩
  cases hq with
  | none => cases holds
  | some h =>
    obtain ⟨r, children⟩ := h
    have atRoot : r = 2 := Option.some.inj (holds.1.symm.trans rfl)
    subst atRoot
    -- the stale `child` of 2 is 1, and 1's `next` is now 1 itself
    exact holds.next_ne_self (holds.2.2.2.1.child_mem rfl) rfl

end Xnu.PriorityQueue
