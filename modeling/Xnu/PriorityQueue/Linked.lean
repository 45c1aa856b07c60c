import Xnu.PriorityQueue.Pqueue

namespace Xnu.PriorityQueue

open LcrsTree

/-! How a heap is laid out in memory, and what `merge_pair_inline` and the two
phases of `meld_pair` do to that layout. A node's `prev` is its parent in the
left-child right-sibling tree: the parent for a first child, the previous
sibling otherwise. -/

/-- The `prev` of the top of `t` is `x`. -/
def PrevIs (mem : Memory) (x : Nat) : LcrsTree Nat → Prop
  | leaf => True
  | node y _ _ => (mem y).prev = some x

/-- The linkage of `t`: the `child` and `next` of every node are the tops of its
two subtrees, and their `prev` is the node. The `prev` of the top is left free. -/
def Linked (mem : Memory) : LcrsTree Nat → Prop
  | leaf => True
  | node x c n => (mem x).child = c.top ∧ (mem x).next = n.top ∧ PrevIs mem x c ∧
      PrevIs mem x n ∧ Linked mem c ∧ Linked mem n

/-- A heap laid out from its root; the root's `next` and `prev` are left free. -/
def Rooted (mem : Memory) (h : Heap Nat) : Prop :=
  (mem h.root).child = h.children.top ∧ PrevIs mem h.root h.children ∧ Linked mem h.children

@[simp] theorem prevIs_leaf (mem : Memory) (x : Nat) : PrevIs mem x leaf := trivial
@[simp] theorem prevIs_node (mem : Memory) (x y : Nat) (c n : LcrsTree Nat) :
    PrevIs mem x (node y c n) ↔ (mem y).prev = some x := Iff.rfl
@[simp] theorem linked_leaf (mem : Memory) : Linked mem leaf := trivial

theorem PrevIs.frame {mem mem' : Memory} {x : Nat} :
    ∀ {t : LcrsTree Nat}, PrevIs mem x t →
      (∀ w, t.top = some w → (mem' w).prev = (mem w).prev) → PrevIs mem' x t
  | leaf, _, _ => trivial
  | node y _ _, up, same => (same y rfl).trans up

/-- The layout of `t` reads only `child` and `next` of its nodes and `prev` of the
nodes below its top. -/
theorem Linked.frame {mem mem' : Memory} :
    ∀ {t : LcrsTree Nat}, Linked mem t →
      (∀ w ∈ t.elems, (mem' w).child = (mem w).child ∧ (mem' w).next = (mem w).next) →
      (∀ w ∈ t.inner, (mem' w).prev = (mem w).prev) → Linked mem' t
  | leaf, _, _, _ => trivial
  | node x c n, ⟨child, next, upChild, upNext, linkedChild, linkedNext⟩, fields, prevs => by
    have atTop := fields x List.mem_cons_self
    have inC : ∀ w ∈ c.elems, w ∈ (node x c n).elems := fun w hw => by simp [hw]
    have inN : ∀ w ∈ n.elems, w ∈ (node x c n).elems := fun w hw => by simp [hw]
    refine ⟨atTop.1.trans child, atTop.2.trans next, ?_, ?_, ?_, ?_⟩
    · exact upChild.frame fun w top => prevs w (List.mem_append_left _ (top_mem top))
    · exact upNext.frame fun w top => prevs w (List.mem_append_right _ (top_mem top))
    · exact linkedChild.frame (fun w hw => fields w (inC w hw))
        (fun w hw => prevs w (List.mem_append_left _ (inner_subset c hw)))
    · exact linkedNext.frame (fun w hw => fields w (inN w hw))
        (fun w hw => prevs w (List.mem_append_right _ (inner_subset n hw)))

theorem Rooted.frame {mem mem' : Memory} {h : Heap Nat} (rooted : Rooted mem h)
    (atRoot : (mem' h.root).child = (mem h.root).child)
    (below : ∀ w ∈ h.children.elems, mem' w = mem w) : Rooted mem' h := by
  obtain ⟨child, up, linked⟩ := rooted
  refine ⟨atRoot.trans child, up.frame fun w top => by rw [below w (top_mem top)], ?_⟩
  exact linked.frame (fun w hw => by rw [below w hw]; exact ⟨rfl, rfl⟩)
    (fun w hw => by rw [below w (inner_subset _ hw)])

theorem Linked.frame_of_eq {mem mem' : Memory} {t : LcrsTree Nat} (linked : Linked mem t)
    (same : ∀ w ∈ t.elems, mem' w = mem w) : Linked mem' t :=
  linked.frame (fun w hw => by rw [same w hw]; exact ⟨rfl, rfl⟩)
    (fun w hw => by rw [same w (inner_subset _ hw)])

theorem Rooted.frame_of_eq {mem mem' : Memory} {h : Heap Nat} (rooted : Rooted mem h)
    (same : ∀ w ∈ h.members, mem' w = mem w) : Rooted mem' h :=
  rooted.frame (by rw [same h.root List.mem_cons_self])
    (fun w hw => same w (List.mem_cons_of_mem _ hw))

/-- A chain starting at a node: the node and its children form a heap. -/
theorem Linked.rooted {mem : Memory} {x : Nat} {c n : LcrsTree Nat}
    (linked : Linked mem (node x c n)) : Rooted mem ⟨x, c⟩ :=
  ⟨linked.1, linked.2.2.1, linked.2.2.2.2.1⟩

/-- A laid out tree has no `next` that points back at its own node. -/
theorem Linked.next_ne_self {mem : Memory} :
    ∀ {t : LcrsTree Nat}, Linked mem t → t.elems.Nodup → ∀ w ∈ t.elems, (mem w).next ≠ some w
  | leaf, _, _, w, member, _ => by simp at member
  | node x c n, ⟨_, next, _, _, linkedC, linkedN⟩, nodup, w, member, loop => by
    rw [elems_node, List.nodup_cons, List.nodup_append] at nodup
    simp only [elems_node, List.mem_cons, List.mem_append] at member
    rcases member with rfl | inC | inN
    · -- the next sibling's subtree would hold `w` a second time
      rw [next] at loop
      exact nodup.1 (List.mem_append_right _ (top_mem loop))
    · exact linkedC.next_ne_self nodup.2.1 w inC loop
    · exact linkedN.next_ne_self nodup.2.2.1 w inN loop

theorem Rooted.child_mem {mem : Memory} {h : Heap Nat} {x : Nat} (rooted : Rooted mem h)
    (child : (mem h.root).child = some x) : x ∈ h.members :=
  List.mem_cons_of_mem _ (top_mem (rooted.1.symm.trans child))

/-! ### `merge_pair_inline` -/

section LinkChild

variable (mem : Memory) (p c w : Nat)

theorem linkChild_child : (linkChild mem p c w).child = if w = p then some c else (mem w).child := by
  unfold linkChild
  simp only [unpackChild_eq, setPrev_child, setNext_child]
  cases (mem p).child <;> simp

theorem linkChild_next :
    (linkChild mem p c w).next = if w = p then none else if w = c then (mem p).child else (mem w).next := by
  unfold linkChild
  simp only [unpackChild_eq, setPrev_child, setNext_child]
  cases (mem p).child <;> simp

theorem linkChild_prev :
    (linkChild mem p c w).prev = if w = p then none else if (mem p).child = some w then some c
      else if w = c then some p else (mem w).prev := by
  unfold linkChild
  simp only [unpackChild_eq, setPrev_child, setNext_child]
  cases (mem p).child with
  | none => simp
  | some f =>
    by_cases atP : w = p
    · simp [atP]
    · by_cases atF : w = f
      · simp [atF]
      · simp [atP, atF, Ne.symm atF]

theorem linkChild_of_ne (notParent : w ≠ p) (notChild : w ≠ c) (notFirst : (mem p).child ≠ some w) :
    linkChild mem p c w = mem w := by
  have child := linkChild_child mem p c w
  have next := linkChild_next mem p c w
  have prev := linkChild_prev mem p c w
  simp only [notParent, notChild, notFirst, if_false] at child next prev
  cases entry : linkChild mem p c w
  cases old : mem w
  simp_all

end LinkChild

/-- `child` becomes the first child of `parent`: the layout is that of the
linked heap, and the new root has NULL `next` and `prev`. -/
theorem linkChild_rooted {mem : Memory} {p c : Nat} {cp cc : LcrsTree Nat}
    (parent : Rooted mem ⟨p, cp⟩) (child : Rooted mem ⟨c, cc⟩)
    (nodup : (p :: cp.elems ++ c :: cc.elems).Nodup) :
    Rooted (linkChild mem p c) ⟨p, node c cc cp⟩ ∧ (linkChild mem p c p).next = none ∧
      (linkChild mem p c p).prev = none := by
  obtain ⟨parentChild, parentUp, parentLinked⟩ := parent
  obtain ⟨childChild, childUp, childLinked⟩ := child
  simp only [List.cons_append, List.nodup_cons, List.mem_append, List.mem_cons, not_or,
    List.nodup_append] at nodup
  obtain ⟨⟨pNotCp, pNeC, pNotCc⟩, cpNodup, ⟨cNotCc, ccNodup⟩, disjoint⟩ := nodup
  have cNotCp : c ∉ cp.elems := fun inCp => disjoint c inCp c (Or.inl rfl) rfl
  have firstEq : (mem p).child = cp.top := parentChild
  -- the nodes of `cc` and of `cp` other than its top keep their linkage
  have ccSame : ∀ w ∈ cc.elems, linkChild mem p c w = mem w := by
    intro w hw
    refine linkChild_of_ne mem p c w (fun same => pNotCc (same ▸ hw)) (fun same => cNotCc (same ▸ hw)) ?_
    rw [firstEq]
    intro top
    exact disjoint w (top_mem top) w (Or.inr hw) rfl
  have cpFields : ∀ w ∈ cp.elems, (linkChild mem p c w).child = (mem w).child ∧
      (linkChild mem p c w).next = (mem w).next := by
    intro w hw
    have ne : w ≠ p := fun same => pNotCp (same ▸ hw)
    have ne' : w ≠ c := fun same => cNotCp (same ▸ hw)
    rw [linkChild_child, linkChild_next]
    simp [ne, ne']
  have cpInner : ∀ w ∈ cp.inner, (linkChild mem p c w).prev = (mem w).prev := by
    intro w hw
    have inCp := inner_subset cp hw
    have ne : w ≠ p := fun same => pNotCp (same ▸ inCp)
    have ne' : w ≠ c := fun same => cNotCp (same ▸ inCp)
    have notTop : (mem p).child ≠ some w := by
      rw [firstEq]
      exact fun top => top_not_mem_inner cpNodup top hw
    rw [linkChild_prev]
    simp [ne, ne', notTop]
  refine ⟨⟨?_, ?_, ?_, ?_, ?_, ?_, ?_, ?_⟩, ?_, ?_⟩
  · simp [linkChild_child]
  · have notFirst : (mem p).child ≠ some c := by
      rw [firstEq]
      exact fun top => cNotCp (top_mem top)
    simp [linkChild_prev, Ne.symm pNeC, notFirst]
  · simpa [linkChild_child, Ne.symm pNeC] using childChild
  · simpa [linkChild_next, Ne.symm pNeC] using firstEq
  · exact childUp.frame fun w top => by rw [ccSame w (top_mem top)]
  · cases cp with
    | leaf => trivial
    | node f _ _ =>
      have ne : f ≠ p := fun same => pNotCp (same ▸ List.mem_cons_self)
      simp [linkChild_prev, ne, firstEq]
  · exact childLinked.frame_of_eq ccSame
  · exact parentLinked.frame cpFields cpInner
  · simp [linkChild_next]
  · simp [linkChild_prev]

section Merge

variable (maxHeap : Bool) (compare : Nat → Nat → Int)

/-- The winner of `merge_pair_inline` as the abstract meld decides it. -/
abbrev beats : Nat → Nat → Bool := mergeParentIsSubtreeB maxHeap compare

theorem nodup_swap {g h : Heap Nat} (nodup : (g.members ++ h.members).Nodup) :
    (h.members ++ g.members).Nodup :=
  List.perm_append_comm.nodup_iff.mp nodup

/-- `merge_pair_inline` of two separate heaps lays out their meld. -/
theorem mergeRoots_spec {mem : Memory} {g h : Heap Nat} (first : Rooted mem g) (second : Rooted mem h)
    (nodup : (g.members ++ h.members).Nodup) :
    let merged := mergeRoots maxHeap compare mem g.root h.root
    let result := Heap.link (beats maxHeap compare) g h
    merged.2 = result.root ∧ Rooted merged.1 result ∧ (merged.1 result.root).next = none ∧
      (merged.1 result.root).prev = none ∧
      ∀ w, w ∉ g.members → w ∉ h.members → merged.1 w = mem w := by
  obtain ⟨a, ca⟩ := g
  obtain ⟨b, cb⟩ := h
  have frame : ∀ {p c : Nat} {cp : LcrsTree Nat}, (mem p).child = cp.top →
      ∀ w, w ∉ p :: cp.elems → w ≠ c → linkChild mem p c w = mem w := by
    intro p c cp firstEq w notP notC
    refine linkChild_of_ne mem p c w (fun same => notP (same ▸ List.mem_cons_self)) notC ?_
    rw [firstEq]
    exact fun top => notP (List.mem_cons_of_mem _ (top_mem top))
  unfold mergeRoots Heap.link
  by_cases wins : beats maxHeap compare a b = true
  · have parts := linkChild_rooted second first (nodup_swap nodup)
    simp only [beats] at wins
    rw [if_pos wins, if_pos wins]
    refine ⟨rfl, parts.1, parts.2.1, parts.2.2, ?_⟩
    intro w notG notH
    exact frame second.1 w notH (fun same => notG (same ▸ List.mem_cons_self))
  · have parts := linkChild_rooted first second nodup
    simp only [beats] at wins
    rw [if_neg wins, if_neg wins]
    refine ⟨rfl, parts.1, parts.2.1, parts.2.2, ?_⟩
    intro w notG notH
    exact frame first.1 w notG (fun same => notH (same ▸ List.mem_cons_self))

/-- `merge_pair_inline` of an optional heap with a heap: the layout of their
merge. When the first is present the winner's `next` and `prev` are NULL. -/
theorem mergePairInline_spec {mem : Memory} {g : Option (Heap Nat)} {h : Heap Nat}
    (first : ∀ x ∈ g, Rooted mem x) (second : Rooted mem h)
    (nodup : (Heap.membersOf g ++ h.members).Nodup) :
    let merged := mergePairInline maxHeap compare mem (g.map Heap.root) h.root
    let result := Heap.merge (beats maxHeap compare) g h
    merged.2 = result.root ∧ Rooted merged.1 result ∧
      (g.isSome → (merged.1 result.root).next = none ∧ (merged.1 result.root).prev = none) ∧
      ∀ w, w ∉ Heap.membersOf g → w ∉ h.members → merged.1 w = mem w := by
  cases g with
  | none => exact ⟨rfl, second, fun absent => absurd absent (by simp), fun _ _ _ => rfl⟩
  | some g =>
    have ne : g.root ≠ h.root := by
      intro same
      have split := (List.nodup_append.mp nodup).2.2
      exact split g.root List.mem_cons_self h.root List.mem_cons_self same
    have parts := mergeRoots_spec maxHeap compare (first g rfl) second nodup
    simp only [Option.map_some, mergePairInline, ne, if_false, Heap.merge]
    exact ⟨parts.1, parts.2.1, fun _ => ⟨parts.2.2.1, parts.2.2.2.1⟩, parts.2.2.2.2⟩

end Merge

end Xnu.PriorityQueue
