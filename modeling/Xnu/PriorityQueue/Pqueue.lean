import Xnu.Lib.PairingHeap

namespace Xnu.PriorityQueue

/-! The pairing heap of `libkern/c++/priority_queue.cpp` (`struct pqueue`).
Elements are named by address and `none` is NULL. The memory maps every
address to its linkage, the `priority_queue_entry` fields `next`, `prev` and
the packed `child` pointer. The comparator is a function of two elements: it
reads their key fields, which no queue operation writes. -/

structure PriorityQueueEntry where
  next : Option Nat
  prev : Option Nat
  child : Option Nat
deriving DecidableEq, Repr

/-- The linkage after `priority_queue_entry_init` (a `bzero`). -/
def PriorityQueueEntry.init : PriorityQueueEntry := ⟨none, none, none⟩

abbrev Memory := Nat → PriorityQueueEntry

def setNext (mem : Memory) (e : Nat) (v : Option Nat) : Memory :=
  Function.update mem e { mem e with next := v }

def setPrev (mem : Memory) (e : Nat) (v : Option Nat) : Memory :=
  Function.update mem e { mem e with prev := v }

def packChild (mem : Memory) (e : Nat) (child : Option Nat) : Memory :=
  Function.update mem e { mem e with child := child }

def unpackChild (mem : Memory) (e : Nat) : Option Nat := (mem e).child

section Fields

variable (mem : Memory) (e w : Nat) (v : Option Nat)

@[simp] theorem setNext_next : (setNext mem e v w).next = if w = e then v else (mem w).next := by
  by_cases h : w = e <;> simp [setNext, h, Function.update_of_ne]
@[simp] theorem setNext_prev : (setNext mem e v w).prev = (mem w).prev := by
  by_cases h : w = e <;> simp [setNext, h, Function.update_of_ne]
@[simp] theorem setNext_child : (setNext mem e v w).child = (mem w).child := by
  by_cases h : w = e <;> simp [setNext, h, Function.update_of_ne]
@[simp] theorem setPrev_next : (setPrev mem e v w).next = (mem w).next := by
  by_cases h : w = e <;> simp [setPrev, h, Function.update_of_ne]
@[simp] theorem setPrev_prev : (setPrev mem e v w).prev = if w = e then v else (mem w).prev := by
  by_cases h : w = e <;> simp [setPrev, h, Function.update_of_ne]
@[simp] theorem setPrev_child : (setPrev mem e v w).child = (mem w).child := by
  by_cases h : w = e <;> simp [setPrev, h, Function.update_of_ne]
@[simp] theorem packChild_next : (packChild mem e v w).next = (mem w).next := by
  by_cases h : w = e <;> simp [packChild, h, Function.update_of_ne]
@[simp] theorem packChild_prev : (packChild mem e v w).prev = (mem w).prev := by
  by_cases h : w = e <;> simp [packChild, h, Function.update_of_ne]
@[simp] theorem packChild_child :
    (packChild mem e v w).child = if w = e then v else (mem w).child := by
  by_cases h : w = e <;> simp [packChild, h, Function.update_of_ne]
@[simp] theorem unpackChild_eq : unpackChild mem e = (mem e).child := rfl

theorem setNext_of_ne (ne : w ≠ e) : setNext mem e v w = mem w := Function.update_of_ne ne _ _
theorem setPrev_of_ne (ne : w ≠ e) : setPrev mem e v w = mem w := Function.update_of_ne ne _ _
theorem packChild_of_ne (ne : w ≠ e) : packChild mem e v w = mem w := Function.update_of_ne ne _ _

end Fields

section Pqueue

-- `priority_queue_is_max_heap` of the queue type, and the element comparator
-- `pqueue_entry_traits::compare`.
variable (maxHeap : Bool) (compare : Nat → Nat → Int)

def mergeParentIsSubtreeB (a b : Nat) : Bool :=
  if maxHeap then compare a b > 0 else compare a b < 0

/-- The pointer writes of `merge_pair_inline` once `parent` and `child` are
chosen: `child` goes first in the child list of `parent`. -/
def linkChild (mem : Memory) (parent child : Nat) : Memory :=
  let mem := setNext mem child (unpackChild mem parent)
  let mem := setPrev mem child (some parent)
  let mem := match unpackChild mem parent with
    | some first => setPrev mem first (some child)
    | none => mem
  let mem := packChild mem parent (some child)
  setPrev (setNext mem parent none) parent none

/-- `merge_pair_inline` on two distinct non-NULL subtrees. -/
def mergeRoots (mem : Memory) (a b : Nat) : Memory × Nat :=
  if mergeParentIsSubtreeB maxHeap compare a b then (linkChild mem b a, b)
  else (linkChild mem a b, a)

/-- `merge_pair_inline` with a non-NULL `subtree_b`, as at every call site. -/
def mergePairInline (mem : Memory) (a : Option Nat) (b : Nat) : Memory × Nat :=
  match a with
  | none => (mem, b)
  | some a => if a = b then (mem, a) else mergeRoots maxHeap compare mem a b

/-- Phase 1 of `meld_pair`: pair the list from `elt` front to back, pushing each
pair on `pairList` through its `prev`; returns the last pair pushed. -/
def meldPairPhase1 : Nat → Memory → Nat → Option Nat → Option (Memory × Nat)
  | 0, _, _, _ => none
  | fuel + 1, mem, elt, pairList =>
    match (mem elt).next with
    | none => some (setPrev mem elt pairList, elt)
    | some itemB =>
      let elt' := (mem itemB).next
      let merged := mergePairInline maxHeap compare mem (some elt) itemB
      let mem := setPrev merged.1 merged.2 pairList
      match elt' with
      | none => some (mem, merged.2)
      | some elt' => meldPairPhase1 fuel mem elt' (some merged.2)

/-- Phase 2 of `meld_pair`: merge the pairs into the result, following `prev`. -/
def meldPairPhase2 : Nat → Memory → Option Nat → Nat → Option (Memory × Nat)
  | 0, _, _, _ => none
  | fuel + 1, mem, result, pairList =>
    let elt := (mem pairList).prev
    let merged := mergePairInline maxHeap compare mem result pairList
    match elt with
    | none => some merged
    | some elt => meldPairPhase2 fuel merged.1 (some merged.2) elt

def meldPair (fuel : Nat) (mem : Memory) (elt : Nat) : Option (Memory × Nat) :=
  (meldPairPhase1 maxHeap compare fuel mem elt none).bind fun phase1 =>
    meldPairPhase2 maxHeap compare fuel phase1.1 none phase1.2

/-- `list_remove`; a NULL `prev` fails its assertion. -/
def listRemove (mem : Memory) (elt : Nat) : Option Memory :=
  match (mem elt).prev with
  | none => none
  | some prev =>
    let mem := if unpackChild mem prev = some elt then packChild mem prev (mem elt).next
      else setNext mem prev (mem elt).next
    match (mem elt).next with
    | some next => some (setPrev mem next (mem elt).prev)
    | none => some mem

/-- The queue (`pq_root`) and the memory it points into. -/
structure PqState where
  pqRoot : Option Nat
  mem : Memory

/-- `insert`: merge `elt` into the root; true iff `elt` became the root. -/
def insert (q : PqState) (elt : Nat) : PqState × Bool :=
  let merged := mergePairInline maxHeap compare q.mem q.pqRoot elt
  (⟨some merged.2, merged.1⟩, merged.2 = elt)

def removeRoot (fuel : Nat) (q : PqState) (oldRoot : Nat) : Option (PqState × Nat) :=
  match unpackChild q.mem oldRoot with
  | none => some (⟨none, q.mem⟩, oldRoot)
  | some newRoot =>
    (meldPair maxHeap compare fuel q.mem newRoot).map fun melded => (⟨some melded.2, melded.1⟩, oldRoot)

/-- `_priority_queue_remove_root`: `remove_root` at `pq_root`. -/
def priorityQueueRemoveRoot (fuel : Nat) (q : PqState) : Option (PqState × Nat) :=
  q.pqRoot.bind (removeRoot maxHeap compare fuel q)

def removeNonRoot (fuel : Nat) (q : PqState) (elt : Nat) : Option PqState :=
  (listRemove q.mem elt).bind fun mem =>
    match unpackChild mem elt with
    | none => some ⟨q.pqRoot, mem⟩
    | some child =>
      (meldPair maxHeap compare fuel mem child).map fun melded =>
        let merged := mergePairInline maxHeap compare melded.1 q.pqRoot melded.2
        ⟨some merged.2, merged.1⟩

/-- `elt->next = elt->prev = NULL; elt->child = 0` after a removal. -/
def clearLinks (mem : Memory) (elt : Nat) : Memory := Function.update mem elt PriorityQueueEntry.init

def remove (fuel : Nat) (q : PqState) (elt : Nat) : Option (PqState × Bool) :=
  if q.pqRoot = some elt then
    (removeRoot maxHeap compare fuel q elt).map fun removed =>
      (⟨removed.1.pqRoot, clearLinks removed.1.mem elt⟩, true)
  else
    (removeNonRoot maxHeap compare fuel q elt).map fun removed =>
      (⟨removed.pqRoot, clearLinks removed.mem elt⟩, false)

def siftDown (fuel : Nat) (q : PqState) (elt : Nat) : Option (PqState × Bool) :=
  (remove maxHeap compare fuel q elt).map fun removed =>
    ((insert maxHeap compare removed.1 elt).1, removed.2)

def siftUp (q : PqState) (elt : Nat) : Option (PqState × Bool) :=
  if q.pqRoot = some elt then some (q, true)
  else (listRemove q.mem elt).map fun mem => insert maxHeap compare ⟨q.pqRoot, mem⟩ elt

def entryIncreased (fuel : Nat) (q : PqState) (elt : Nat) : Option (PqState × Bool) :=
  if maxHeap then siftUp maxHeap compare q elt else siftDown maxHeap compare fuel q elt

def entryDecreased (fuel : Nat) (q : PqState) (elt : Nat) : Option (PqState × Bool) :=
  if !maxHeap then siftUp maxHeap compare q elt else siftDown maxHeap compare fuel q elt

end Pqueue

/-! The comparators of `pqueue_entry_traits`, on the key fields they read. -/

/-- `priority_heap_compare_ints`. -/
def priorityHeapCompareInts (a b : UInt64) : Int := if a < b then 1 else -1

/-- `priority_queue_entry_deadline_t`: the `deadline` fields. -/
def deadlineCompare (deadline : Nat → UInt64) (e1 e2 : Nat) : Int :=
  priorityHeapCompareInts (deadline e1) (deadline e2)

/-- `priority_queue_entry_sched_t`: `(int)e2->key - (int)e1->key` on the signed
16-bit `key` bit-field. -/
def schedCompare (key : Nat → Int16) (e1 e2 : Nat) : Int := (key e2).toInt - (key e1).toInt

def priorityQueueEntryPreempted : Int16 := 1

/-- `priority_queue_entry_stable_t`: key first; at equal keys preempted entries
prefer the younger stamp and the others the older one. -/
def stableCompare (key : Nat → Int16) (stamp : Nat → UInt64) (e1 e2 : Nat) : Int :=
  if key e1 ≠ key e2 then (key e2).toInt - (key e1).toInt
  else if stamp e1 ≠ stamp e2 then
    if key e1 &&& priorityQueueEntryPreempted ≠ 0 then
      (if stamp e1 < stamp e2 then 1 else -1)
    else (if stamp e1 > stamp e2 then 1 else -1)
  else 0

end Xnu.PriorityQueue
