import Xnu.PriorityQueue.Meld

namespace Xnu.PriorityQueue

open LcrsTree

/-! `list_remove` unhooks an element from its level: the node above it (its
parent or its previous sibling) takes over its `next`, and its `next` sibling
gets its `prev`. It refines `LcrsTree.cut`. -/

/-- Every node below the top of a laid out tree has its `prev` inside the tree. -/
theorem Linked.prev_mem_inner {mem : Memory} :
    ∀ {t : LcrsTree Nat}, Linked mem t → t.elems.Nodup →
      ∀ w ∈ t.inner, ∃ v ∈ t.elems, v ≠ w ∧ (mem w).prev = some v
  | leaf, _, _, w, member => by simp at member
  | node x c n, ⟨_, _, upC, upN, linkedC, linkedN⟩, nodup, w, member => by
    have parts := List.nodup_cons.mp nodup
    have nodupC := parts.2.of_append_left
    have nodupN := parts.2.of_append_right
    have lift : ∀ v, v ∈ c.elems ∨ v ∈ n.elems → v ∈ (node x c n).elems := fun v hv => by
      simp only [elems_node, List.mem_cons, List.mem_append]
      exact Or.inr hv
    rcases List.mem_append.mp member with inC | inN
    · cases c with
      | leaf => simp at inC
      | node z cz nz =>
        rcases List.mem_cons.mp inC with rfl | deeper
        · exact ⟨x, List.mem_cons_self,
            fun same => parts.1 (by rw [same]; exact List.mem_append_left _ inC), upC⟩
        · obtain ⟨v, inside, ne, prev⟩ := linkedC.prev_mem_inner nodupC w deeper
          exact ⟨v, lift v (Or.inl inside), ne, prev⟩
    · cases n with
      | leaf => simp at inN
      | node z cz nz =>
        rcases List.mem_cons.mp inN with rfl | deeper
        · exact ⟨x, List.mem_cons_self,
            fun same => parts.1 (by rw [same]; exact List.mem_append_right _ inN), upN⟩
        · obtain ⟨v, inside, ne, prev⟩ := linkedN.prev_mem_inner nodupN w deeper
          exact ⟨v, lift v (Or.inr inside), ne, prev⟩

/-- The `prev` of a node of a laid out tree hanging from `u`: `u` for the top, a
node of the tree otherwise, and never the node itself. -/
theorem Linked.prev_of_mem {mem : Memory} {t : LcrsTree Nat} {u y : Nat} (linked : Linked mem t)
    (up : PrevIs mem u t) (nodup : (u :: t.elems).Nodup) (member : y ∈ t.elems) :
    ∃ p, (mem y).prev = some p ∧ p ≠ y ∧ (p = u ∨ p ∈ t.elems) := by
  have parts := List.nodup_cons.mp nodup
  cases t with
  | leaf => simp at member
  | node x c n =>
    rcases List.mem_cons.mp member with rfl | deeper
    · exact ⟨u, up, fun same => parts.1 (same ▸ List.mem_cons_self), Or.inl rfl⟩
    · obtain ⟨v, inside, ne, prev⟩ := linked.prev_mem_inner parts.2 y deeper
      exact ⟨v, prev, ne, Or.inr inside⟩

/-- In a laid out tree the `next` of a node points back through `prev`. -/
theorem Linked.next_prev {mem : Memory} {y z : Nat} :
    ∀ {t : LcrsTree Nat}, Linked mem t → y ∈ t.elems → (mem y).next = some z → (mem z).prev = some y
  | leaf, _, member, _ => by simp at member
  | node x c n, ⟨_, next, _, upN, linkedC, linkedN⟩, member, nextY => by
    simp only [elems_node, List.mem_cons, List.mem_append] at member
    rcases member with rfl | inC | inN
    · cases n with
      | leaf => simp_all
      | node z' _ _ =>
        rw [next] at nextY
        cases nextY
        exact upN
    · exact linkedC.next_prev inC nextY
    · exact linkedN.next_prev inN nextY

theorem Linked.next_mem {mem : Memory} {y z : Nat} :
    ∀ {t : LcrsTree Nat}, Linked mem t → y ∈ t.elems → (mem y).next = some z → z ∈ t.elems
  | leaf, _, member, _ => by simp at member
  | node x c n, ⟨_, next, _, _, linkedC, linkedN⟩, member, nextY => by
    simp only [elems_node, List.mem_cons, List.mem_append] at member ⊢
    rcases member with rfl | inC | inN
    · rw [next] at nextY
      exact Or.inr (Or.inr (top_mem nextY))
    · exact Or.inr (Or.inl (linkedC.next_mem inC nextY))
    · exact Or.inr (Or.inr (linkedN.next_mem inN nextY))

/-- The writes of `list_remove` at `y` with `prev` `p`, field by field. -/
theorem listRemove_fields {mem : Memory} {y p : Nat} (prevY : (mem y).prev = some p) :
    ∃ mem', listRemove mem y = some mem' ∧
      (∀ w, (mem' w).child = if w = p ∧ (mem p).child = some y then (mem y).next else (mem w).child) ∧
      (∀ w, (mem' w).next = if w = p ∧ (mem p).child ≠ some y then (mem y).next else (mem w).next) ∧
      (∀ w, (mem' w).prev = if (mem y).next = some w then some p else (mem w).prev) := by
  by_cases first : (mem p).child = some y
  · cases next : (mem y).next with
    | none =>
      refine ⟨packChild mem p (mem y).next, ?_, ?_, ?_, ?_⟩
      · simp [listRemove, prevY, first, next]
      all_goals intro w; by_cases atP : w = p <;> simp [atP, first, next]
    | some z =>
      refine ⟨setPrev (packChild mem p (mem y).next) z (some p), ?_, ?_, ?_, ?_⟩
      · simp [listRemove, prevY, first, next]
      all_goals
        intro w
        rcases eq_or_ne w z with rfl | atZ
        · by_cases atP : w = p <;> simp_all
        · have atZ' := Ne.symm atZ
          by_cases atP : w = p <;> simp_all
  · cases next : (mem y).next with
    | none =>
      refine ⟨setNext mem p (mem y).next, ?_, ?_, ?_, ?_⟩
      · simp [listRemove, prevY, first, next]
      all_goals intro w; by_cases atP : w = p <;> simp [atP, first, next]
    | some z =>
      refine ⟨setPrev (setNext mem p (mem y).next) z (some p), ?_, ?_, ?_, ?_⟩
      · simp [listRemove, prevY, first, next]
      all_goals
        intro w
        rcases eq_or_ne w z with rfl | atZ
        · by_cases atP : w = p <;> simp_all
        · have atZ' := Ne.symm atZ
          by_cases atP : w = p <;> simp_all

/-- How the tree `t` hangs from `u`: as its first child, or as its next sibling
(and then `u`'s child is outside `t`). -/
def Hangs (mem : Memory) (u : Nat) (t : LcrsTree Nat) : Bool → Prop
  | true => (mem u).child = t.top
  | false => (mem u).next = t.top ∧ ∀ w ∈ t.elems, (mem u).child ≠ some w

/-- After the removal `u` holds the new top in the same field and keeps the other one. -/
def Rehung (mem mem' : Memory) (u : Nat) (t : LcrsTree Nat) : Bool → Prop
  | true => (mem' u).child = t.top ∧ (mem' u).next = (mem u).next
  | false => (mem' u).next = t.top ∧ (mem' u).child = (mem u).child

section Unhook

variable {mem mem' : Memory} {y p : Nat}
  (prevY : (mem y).prev = some p)
  (childW : ∀ w, (mem' w).child = if w = p ∧ (mem p).child = some y then (mem y).next else (mem w).child)
  (nextW : ∀ w, (mem' w).next = if w = p ∧ (mem p).child ≠ some y then (mem y).next else (mem w).next)
  (prevW : ∀ w, (mem' w).prev = if (mem y).next = some w then some p else (mem w).prev)
  (nextPrev : ∀ z, (mem y).next = some z → (mem z).prev = some y)

include childW nextW prevW

omit prevW in
theorem rehung_of_ne {u : Nat} {t s : LcrsTree Nat} {side : Bool} (ne : u ≠ p)
    (hang : Hangs mem u t side) (sameTop : s.top = t.top) : Rehung mem mem' u s side := by
  have child : (mem' u).child = (mem u).child := by rw [childW]; simp [ne]
  have next : (mem' u).next = (mem u).next := by rw [nextW]; simp [ne]
  cases side with
  | true => exact ⟨child.trans (hang.trans sameTop.symm), next⟩
  | false => exact ⟨next.trans (hang.1.trans sameTop.symm), child⟩

theorem unhook_eq {w : Nat} (notP : w ≠ p) (notNext : (mem y).next ≠ some w) : mem' w = mem w := by
  have child := childW w
  have next := nextW w
  have prev := prevW w
  simp only [notP, notNext, false_and, if_false] at child next prev
  cases entry : mem' w
  cases old : mem w
  simp_all

include nextPrev

omit childW nextW in
/-- A node whose `prev` is not `y` keeps its `prev`. -/
theorem unhook_prev {w v : Nat} (prev : (mem w).prev = some v) (ne : v ≠ y) :
    (mem' w).prev = some v := by
  rw [prevW]
  have notNext : (mem y).next ≠ some w := fun next => ne (Option.some.inj ((prev.symm.trans (nextPrev w next))))
  simp [notNext, prev]

/-- A laid out tree that holds neither `y` nor `p` keeps its layout. -/
theorem Linked.unhook {s : LcrsTree Nat} (linked : Linked mem s) (nodup : s.elems.Nodup)
    (notY : y ∉ s.elems) (notP : p ∉ s.elems) : Linked mem' s := by
  refine linked.frame (fun w hw => ?_) (fun w hw => ?_)
  · have ne : w ≠ p := fun same => notP (same ▸ hw)
    rw [childW, nextW]
    simp [ne]
  · obtain ⟨v, inside, _, prev⟩ := linked.prev_mem_inner nodup w hw
    exact (unhook_prev prevW nextPrev prev fun same => notY (same ▸ inside)).trans prev.symm

omit childW nextW in
theorem PrevIs.unhook {s : LcrsTree Nat} {x : Nat} (up : PrevIs mem x s) (ne : x ≠ y) :
    PrevIs mem' x s := by
  cases s with
  | leaf => trivial
  | node z _ _ => exact unhook_prev prevW nextPrev up ne

include prevY

/-- `list_remove` of `y`, found in the tree `t` hanging from `u`, unhooks it:
`t.cut y` is laid out and hangs from `u` in the same way, and `y` keeps its
children. -/
theorem unhook_cut : ∀ {t : LcrsTree Nat} {u : Nat} (side : Bool),
    Linked mem t → PrevIs mem u t → (u :: t.elems).Nodup → y ∈ t.elems → Hangs mem u t side →
    Linked mem' (t.cut y) ∧ PrevIs mem' u (t.cut y) ∧ Rehung mem mem' u (t.cut y) side ∧
      ∀ cy, t.childrenOf y = some cy → Rooted mem' ⟨y, cy⟩
  | leaf, _, _, _, _, _, member, _ => by simp at member
  | node x c n, u, side, linked, up, nodup, member, hang => by
    obtain ⟨childX, nextX, upC, upN, linkedC, linkedN⟩ := linked
    simp only [elems_node, List.nodup_cons, List.mem_cons, List.mem_append, not_or,
      List.nodup_append] at nodup
    obtain ⟨⟨uNeX, uNotC, uNotN⟩, ⟨xNotC, xNotN⟩, nodupC, nodupN, disjoint⟩ := nodup
    by_cases here : x = y
    · -- `y` is the top of `t`, so it hangs from `u = p`
      subst x
      have pEq : p = u := Option.some.inj (prevY.symm.trans up)
      subst u
      have cutEq : (node y c n).cut y = n := by simp [cut]
      rw [cutEq]
      refine ⟨linkedN.unhook childW nextW prevW nextPrev nodupN xNotN uNotN, ?_, ?_, ?_⟩
      · cases n with
        | leaf => trivial
        | node z _ _ =>
          show (mem' z).prev = some p
          rw [prevW]
          simp [nextX]
      · cases side with
        | true =>
          have first : (mem p).child = some y := hang
          rw [Rehung, childW, nextW]
          simp [first, nextX]
        | false =>
          have notFirst : (mem p).child ≠ some y := hang.2 y List.mem_cons_self
          rw [Rehung, childW, nextW]
          simp [notFirst, nextX]
      · intro cy found
        simp only [childrenOf, if_true, Option.some.injEq] at found
        subst found
        refine (show Rooted mem ⟨y, c⟩ from ⟨childX, upC, linkedC⟩).frame_of_eq fun w hw => ?_
        refine unhook_eq childW nextW prevW (fun same => ?_) (fun next => ?_)
        · rcases List.mem_cons.mp hw with atY | inC
          · exact uNeX (same.symm.trans atY)
          · exact uNotC (same ▸ inC)
        · have inN : w ∈ n.elems := top_mem (nextX.symm.trans next)
          rcases List.mem_cons.mp hw with atY | inC
          · exact xNotN (by rw [show y = w from atY.symm]; exact inN)
          · exact disjoint w inC w inN rfl
    · have cutEq : (node x c n).cut y = node x (c.cut y) (n.cut y) := by simp [cut, here]
      rw [cutEq]
      simp only [elems_node, List.mem_cons, List.mem_append] at member
      have uNeY : u ≠ y := fun same => by
        rcases member with atX | inC | inN
        · exact uNeX (same.trans atX)
        · exact uNotC (same ▸ inC)
        · exact uNotN (same ▸ inN)
      rcases member with atX | yInC | yInN
      · exact absurd atX.symm here
      · -- `y` sits in the child chain of `x`
        have yNotN : y ∉ n.elems := fun inN => disjoint y yInC y inN rfl
        obtain ⟨p', prev', -, located⟩ :=
          linkedC.prev_of_mem upC (List.nodup_cons.mpr ⟨xNotC, nodupC⟩) yInC
        rw [Option.some.inj (prev'.symm.trans prevY)] at located
        have pNotN : p ∉ n.elems := fun inN => by
          rcases located with atX | inC
          · exact xNotN (atX ▸ inN)
          · exact disjoint p inC p inN rfl
        have uNeP : u ≠ p := fun same => by
          rcases located with atX | inC
          · exact uNeX (same.trans atX)
          · exact uNotC (same ▸ inC)
        obtain ⟨linkedC', upC', rehungC, rootedY⟩ :=
          unhook_cut true linkedC upC (List.nodup_cons.mpr ⟨xNotC, nodupC⟩) yInC childX
        rw [cut_of_not_mem yNotN]
        refine ⟨⟨rehungC.1, rehungC.2.trans nextX, upC', upN.unhook prevW nextPrev here,
          linkedC', linkedN.unhook childW nextW prevW nextPrev nodupN yNotN pNotN⟩,
          unhook_prev prevW nextPrev up uNeY,
          rehung_of_ne childW nextW uNeP hang rfl, ?_⟩
        intro cy found
        obtain ⟨cy', foundC⟩ := childrenOf_isSome yInC
        simp only [childrenOf, here, if_false, foundC, Option.some_or, Option.some.injEq] at found
        exact found ▸ rootedY cy' foundC
      · -- `y` sits further along the level of `x`
        have yNotC : y ∉ c.elems := fun inC => disjoint y inC y yInN rfl
        obtain ⟨p', prev', -, located⟩ :=
          linkedN.prev_of_mem upN (List.nodup_cons.mpr ⟨xNotN, nodupN⟩) yInN
        rw [Option.some.inj (prev'.symm.trans prevY)] at located
        have pNotC : p ∉ c.elems := fun inC => by
          rcases located with atX | inN
          · exact xNotC (atX ▸ inC)
          · exact disjoint p inC p inN rfl
        have uNeP : u ≠ p := fun same => by
          rcases located with atX | inN
          · exact uNeX (same.trans atX)
          · exact uNotN (same ▸ inN)
        have hangN : Hangs mem x n false := by
          refine ⟨nextX, fun w inN top => ?_⟩
          rw [childX] at top
          exact disjoint w (top_mem top) w inN rfl
        obtain ⟨linkedN', upN', rehungN, rootedY⟩ :=
          unhook_cut false linkedN upN (List.nodup_cons.mpr ⟨xNotN, nodupN⟩) yInN hangN
        rw [cut_of_not_mem yNotC]
        refine ⟨⟨rehungN.2.trans childX, rehungN.1, upC.unhook prevW nextPrev here, upN',
          linkedC.unhook childW nextW prevW nextPrev nodupC yNotC pNotC, linkedN'⟩,
          unhook_prev prevW nextPrev up uNeY,
          rehung_of_ne childW nextW uNeP hang rfl, ?_⟩
        intro cy found
        simp only [childrenOf, here, if_false, childrenOf_eq_none yNotC, Option.none_or] at found
        exact rootedY cy found

end Unhook

/-- `list_remove` of a member below the root of a laid out heap: the rest stays
laid out from the same root with the same `next` and `prev`, `y` keeps its
children, and nothing outside the heap is written. -/
theorem listRemove_spec {mem : Memory} {h : Heap Nat} {y : Nat} (rooted : Rooted mem h)
    (rootPrev : (mem h.root).prev = none) (nodup : h.members.Nodup) (below : y ∈ h.children.elems) :
    ∃ mem' cy, listRemove mem y = some mem' ∧ h.children.childrenOf y = some cy ∧
      Rooted mem' ⟨h.root, h.children.cut y⟩ ∧ (mem' h.root).next = (mem h.root).next ∧
      (mem' h.root).prev = none ∧ Rooted mem' ⟨y, cy⟩ ∧ ∀ w ∉ h.members, mem' w = mem w := by
  obtain ⟨child, up, linked⟩ := rooted
  obtain ⟨p, prevY, ne, located⟩ := linked.prev_of_mem up nodup below
  obtain ⟨mem', run, childW, nextW, prevW⟩ := listRemove_fields prevY
  have nextPrev : ∀ z, (mem y).next = some z → (mem z).prev = some y :=
    fun z next => linked.next_prev below next
  obtain ⟨linked', up', ⟨rootChild, rootNext⟩, rootedY⟩ :=
    unhook_cut prevY childW nextW prevW nextPrev true linked up nodup below child
  obtain ⟨cy, found⟩ := childrenOf_isSome below
  have rootPrev' : (mem' h.root).prev = none := by
    rw [prevW]
    have notNext : (mem y).next ≠ some h.root := fun next => by
      have back := nextPrev _ next
      rw [rootPrev] at back
      cases back
    simp [notNext, rootPrev]
  refine ⟨mem', cy, run, found, ⟨rootChild, up', linked'⟩, rootNext, rootPrev', rootedY cy found, ?_⟩
  intro w notIn
  refine unhook_eq childW nextW prevW (fun same => notIn ?_) (fun next => notIn ?_)
  · rcases located with atRoot | inside
    · rw [same, atRoot]
      exact List.mem_cons_self
    · rw [same]
      exact List.mem_cons_of_mem _ inside
  · exact List.mem_cons_of_mem _ (linked.next_mem below next)

end Xnu.PriorityQueue
