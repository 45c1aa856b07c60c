import Xnu.PriorityQueue.Remove

namespace Xnu.PriorityQueue

open LcrsTree

/-! The exported operations of `pqueue` refine the abstract heap operations of
`Xnu.Heap`: each one, run on a queue that holds a heap, ends in a queue that
holds the abstract result. -/

/-- The queue holds the heap `h`: `pq_root` is its root, laid out with NULL `next`
and `prev`, and no element occurs twice. An empty queue has a NULL root. -/
def Holds (q : PqState) : Option (Heap Nat) → Prop
  | none => q.pqRoot = none
  | some h => q.pqRoot = some h.root ∧ (q.mem h.root).next = none ∧ (q.mem h.root).prev = none ∧
      Rooted q.mem h ∧ h.members.Nodup

theorem Holds.pqRoot {q : PqState} : ∀ {hq : Option (Heap Nat)}, Holds q hq → q.pqRoot = hq.map Heap.root
  | none, holds => holds
  | some _, holds => holds.1

theorem Holds.rooted {q : PqState} {hq : Option (Heap Nat)} (holds : Holds q hq) :
    ∀ h ∈ hq, Rooted q.mem h := by
  intro h same
  cases same
  exact holds.2.2.2.1

theorem Holds.nodup {q : PqState} : ∀ {hq : Option (Heap Nat)}, Holds q hq → (Heap.membersOf hq).Nodup
  | none, _ => List.nodup_nil
  | some _, holds => holds.2.2.2.2

/-- Writes outside the heap's members leave what the queue holds. -/
theorem Holds.frame_of_eq {q : PqState} {mem' : Memory} :
    ∀ {hq : Option (Heap Nat)}, Holds q hq → (∀ w ∈ Heap.membersOf hq, mem' w = q.mem w) →
      Holds ⟨q.pqRoot, mem'⟩ hq
  | none, holds, _ => holds
  | some h, ⟨root, next, prev, rooted, nodup⟩, same => by
    have atRoot := same h.root List.mem_cons_self
    refine ⟨root, ?_, ?_, rooted.frame_of_eq same, nodup⟩
    · show (mem' h.root).next = none
      rw [atRoot]
      exact next
    · show (mem' h.root).prev = none
      rw [atRoot]
      exact prev

theorem Holds.next_ne_self {q : PqState} {h : Heap Nat} {w : Nat} (holds : Holds q (some h))
    (member : w ∈ h.members) : (q.mem w).next ≠ some w := by
  obtain ⟨_, next, _, ⟨_, _, linked⟩, nodup⟩ := holds
  rcases List.mem_cons.mp member with atRoot | below
  · rw [atRoot, next]
    exact Option.some_ne_none _ ∘ Eq.symm
  · exact linked.next_ne_self (List.nodup_cons.mp nodup).2 w below

section Ops

variable (maxHeap : Bool) (compare : Nat → Nat → Int)

/-- `insert` of a laid out heap `g` separate from the queue: the queue holds their
merge. Into an empty queue `g` goes as it is, so its root must have NULL links. -/
theorem insert_spec {q : PqState} {hq : Option (Heap Nat)} {g : Heap Nat} (holds : Holds q hq)
    (rooted : Rooted q.mem g) (nodup : (Heap.membersOf hq ++ g.members).Nodup)
    (alone : hq = none → (q.mem g.root).next = none ∧ (q.mem g.root).prev = none) :
    Holds (insert maxHeap compare q g.root).1 (some (Heap.merge (beats maxHeap compare) hq g)) ∧
      ∀ w, w ∉ Heap.membersOf hq → w ∉ g.members → (insert maxHeap compare q g.root).1.mem w = q.mem w := by
  obtain ⟨root, merged, closed, frame⟩ :=
    mergePairInline_spec maxHeap compare holds.rooted rooted nodup
  have links : ((mergePairInline maxHeap compare q.mem (hq.map Heap.root) g.root).1
        (Heap.merge (beats maxHeap compare) hq g).root).next = none ∧
      ((mergePairInline maxHeap compare q.mem (hq.map Heap.root) g.root).1
        (Heap.merge (beats maxHeap compare) hq g).root).prev = none := by
    cases hq with
    | none => exact alone rfl
    | some h => exact closed rfl
  have perm := Heap.merge_perm (beats maxHeap compare) hq g
  unfold insert
  rw [holds.pqRoot]
  exact ⟨⟨congrArg some root, links.1, links.2, merged, perm.nodup_iff.mpr nodup⟩, frame⟩

/-- `_priority_queue_remove_root` on a queue holding `h`: it returns the root and
the queue holds the meld of the root's children. Nothing outside the children is
written, so the old root keeps its stale `child`. -/
theorem priorityQueueRemoveRoot_spec {fuel : Nat} {q : PqState} {h : Heap Nat}
    (holds : Holds q (some h)) (enough : h.members.length ≤ fuel) :
    ∃ q', priorityQueueRemoveRoot maxHeap compare fuel q = some (q', h.root) ∧
      Holds q' (Heap.meld (beats maxHeap compare) h.children) ∧
      ∀ w ∉ h.children.elems, q'.mem w = q.mem w := by
  obtain ⟨root, _, _, ⟨child, _, linked⟩, nodup⟩ := holds
  simp only [priorityQueueRemoveRoot, root, Option.bind_some, removeRoot, unpackChild_eq, child]
  cases children : h.children with
  | leaf =>
    exact ⟨⟨none, q.mem⟩, by simp, rfl, fun _ _ => rfl⟩
  | node a ca rest =>
    have spine := spine_length_le (node a ca rest)
    rw [children] at linked
    simp only [Heap.members, children, List.length_cons] at enough spine nodup
    simp only [top_node]
    obtain ⟨mem', g, melded, run, rooted, next, prev, frame⟩ :=
      meldPair_spec maxHeap compare linked (List.nodup_cons.mp nodup).2 (show _ ≤ fuel by omega)
    have perm := Heap.meld_perm (beats maxHeap compare) (node a ca rest)
    rw [melded, Heap.membersOf_some] at perm
    refine ⟨⟨some g.root, mem'⟩, by simp [run], ?_, frame⟩
    rw [melded]
    exact ⟨rfl, next, prev, rooted, perm.nodup_iff.mpr (List.nodup_cons.mp nodup).2⟩

/-- `remove_non_root` of a member below the root: the queue holds `Heap.removeBelow`. -/
theorem removeNonRoot_spec {fuel : Nat} {q : PqState} {h : Heap Nat} {y : Nat}
    (holds : Holds q (some h)) (below : y ∈ h.children.elems) (enough : h.members.length ≤ fuel) :
    ∃ q', removeNonRoot maxHeap compare fuel q y = some q' ∧
      Holds q' (some (Heap.removeBelow (beats maxHeap compare) y h)) ∧
      ∀ w ∉ h.members, q'.mem w = q.mem w := by
  obtain ⟨root, next, prev, rooted, nodup⟩ := holds
  obtain ⟨mem₁, cy, run, found, rest, restNext, restPrev, rootedY, frame₁⟩ :=
    listRemove_spec rooted prev nodup below
  have removedPerm := Heap.removeBelow_perm (beats maxHeap compare) nodup below
  have removedNodup := (List.nodup_cons.mp (removedPerm.nodup_iff.mpr nodup)).2
  have cutPerm := cut_perm (List.nodup_cons.mp nodup).2 found
  have cutNodup := cutPerm.nodup_iff.mpr (List.nodup_cons.mp nodup).2
  simp only [removeNonRoot, run, Option.bind_some, unpackChild_eq, rootedY.1]
  unfold Heap.removeBelow at removedNodup ⊢
  simp only [found, Option.bind_some] at removedNodup ⊢
  cases cy with
  | leaf =>
    have melded : Heap.meld (beats maxHeap compare) (leaf : LcrsTree Nat) = none := rfl
    simp only [top_leaf, melded] at removedNodup ⊢
    exact ⟨⟨q.pqRoot, mem₁⟩, rfl, ⟨root, restNext.trans next, restPrev, rest, removedNodup⟩, frame₁⟩
  | node a ca rest' =>
    have chainNodup : (node a ca rest').elems.Nodup :=
      (List.nodup_cons.mp (List.nodup_append.mp cutNodup).2.1).2
    have spine := spine_length_le (node a ca rest')
    have length := cutPerm.length_eq
    simp only [Heap.members, List.length_cons, List.length_append] at enough length
    obtain ⟨mem₂, m, melded, meldRun, rootedM, _, _, frame₂⟩ :=
      meldPair_spec maxHeap compare rootedY.2.2 chainNodup (show _ ≤ fuel by omega)
    -- the rest of the heap is outside the melded chain
    have restOut : ∀ w ∈ (⟨h.root, h.children.cut y⟩ : Heap Nat).members,
        w ∉ (node a ca rest').elems := by
      intro w hw inChain
      have inChildren : w ∈ h.children.elems :=
        cutPerm.subset (List.mem_append_right _ (List.mem_cons_of_mem _ inChain))
      rcases List.mem_cons.mp hw with atRoot | inCut
      · exact (List.nodup_cons.mp nodup).1 (atRoot ▸ inChildren)
      · exact (List.nodup_append.mp cutNodup).2.2 w inCut w (List.mem_cons_of_mem _ inChain) rfl
    have restKept : Rooted mem₂ ⟨h.root, h.children.cut y⟩ :=
      rest.frame_of_eq fun w hw => frame₂ w (restOut w hw)
    have meldPerm := Heap.meld_perm (beats maxHeap compare) (node a ca rest')
    rw [melded, Heap.membersOf_some] at meldPerm
    simp only [melded] at removedNodup ⊢
    have pairNodup : ((⟨h.root, h.children.cut y⟩ : Heap Nat).members ++ m.members).Nodup :=
      (Heap.link_perm (beats maxHeap compare) ⟨h.root, h.children.cut y⟩ m).nodup_iff.mp removedNodup
    obtain ⟨mergeRoot, merged, closed, frame₃⟩ := mergePairInline_spec maxHeap compare
      (show ∀ x ∈ some (⟨h.root, h.children.cut y⟩ : Heap Nat), Rooted mem₂ x from
        fun x same => by cases same; exact restKept) rootedM pairNodup
    simp only [Option.map_some, Heap.merge_some] at mergeRoot merged closed frame₃
    refine ⟨⟨some (mergePairInline maxHeap compare mem₂ (some h.root) m.root).2,
        (mergePairInline maxHeap compare mem₂ (some h.root) m.root).1⟩, by simp [meldRun, root],
      ⟨congrArg some mergeRoot, (closed rfl).1, (closed rfl).2, merged, removedNodup⟩, ?_⟩
    intro w notIn
    have notChildren : w ∉ h.children.elems := fun inC => notIn (List.mem_cons_of_mem _ inC)
    have notRest : w ∉ (⟨h.root, h.children.cut y⟩ : Heap Nat).members := by
      intro hw
      rcases List.mem_cons.mp hw with atRoot | inCut
      · exact notIn (atRoot ▸ List.mem_cons_self)
      · exact notChildren (elems_cut_subset y _ inCut)
    have notChain : w ∉ (node a ca rest').elems := fun inChain => notChildren
      (cutPerm.subset (List.mem_append_right _ (List.mem_cons_of_mem _ inChain)))
    dsimp only
    rw [frame₃ w notRest (fun inM => notChain (meldPerm.subset inM)), frame₂ w notChain,
      frame₁ w notIn]

/-- `priority_queue_remove` of a member: the queue holds `Heap.remove`, and the
removed element's linkage is zeroed. -/
theorem remove_spec {fuel : Nat} {q : PqState} {h : Heap Nat} {y : Nat}
    (holds : Holds q (some h)) (member : y ∈ h.members) (enough : h.members.length ≤ fuel) :
    ∃ q' wasRoot, remove maxHeap compare fuel q y = some (q', wasRoot) ∧
      Holds q' (Heap.remove (beats maxHeap compare) y h) ∧ q'.mem y = PriorityQueueEntry.init ∧
      ∀ w ∉ h.members, q'.mem w = q.mem w := by
  have removedPerm := Heap.remove_perm (beats maxHeap compare) holds.2.2.2.2 member
  have notAfter : y ∉ Heap.membersOf (Heap.remove (beats maxHeap compare) y h) :=
    (List.nodup_cons.mp (removedPerm.nodup_iff.mpr holds.2.2.2.2)).1
  have cleared : ∀ {q₁ : PqState}, Holds q₁ (Heap.remove (beats maxHeap compare) y h) →
      Holds ⟨q₁.pqRoot, clearLinks q₁.mem y⟩ (Heap.remove (beats maxHeap compare) y h) :=
    fun holds₁ => holds₁.frame_of_eq fun w hw =>
      Function.update_of_ne (fun (same : w = y) => notAfter (same ▸ hw)) _ _
  unfold remove
  by_cases atRoot : h.root = y
  · subst atRoot
    obtain ⟨q₁, run, holds₁, frame₁⟩ := priorityQueueRemoveRoot_spec maxHeap compare holds enough
    have removeRun : removeRoot maxHeap compare fuel q h.root = some (q₁, h.root) := by
      simpa [priorityQueueRemoveRoot, holds.1] using run
    rw [← Heap.remove_root] at holds₁
    refine ⟨_, true, by simp [holds.1, removeRun], cleared holds₁, by simp [clearLinks], ?_⟩
    intro w notIn
    have ne : w ≠ h.root := fun same => notIn (same ▸ List.mem_cons_self)
    simp only [clearLinks, Function.update_of_ne ne]
    exact frame₁ w fun inC => notIn (List.mem_cons_of_mem _ inC)
  · have below : y ∈ h.children.elems := (List.mem_cons.mp member).resolve_left (Ne.symm atRoot)
    obtain ⟨q₁, run, holds₁, frame₁⟩ := removeNonRoot_spec maxHeap compare holds below enough
    have notRoot : q.pqRoot ≠ some y := by
      rw [holds.1]
      exact fun same => atRoot (Option.some.inj same)
    rw [← Heap.remove_of_ne _ atRoot] at holds₁
    refine ⟨_, false, by simp [notRoot, run], cleared holds₁, by simp [clearLinks], ?_⟩
    · intro w notIn
      have ne : w ≠ y := fun same => notIn (same ▸ member)
      simp only [clearLinks, Function.update_of_ne ne]
      exact frame₁ w notIn

/-- `sift_up` of a member: the queue holds `Heap.raise`. -/
theorem siftUp_spec {q : PqState} {h : Heap Nat} {y : Nat} (holds : Holds q (some h))
    (member : y ∈ h.members) :
    ∃ q' becameRoot, siftUp maxHeap compare q y = some (q', becameRoot) ∧
      Holds q' (some (Heap.raise (beats maxHeap compare) y h)) ∧
      ∀ w ∉ h.members, q'.mem w = q.mem w := by
  unfold siftUp Heap.raise
  by_cases atRoot : h.root = y
  · subst atRoot
    exact ⟨q, true, by simp [holds.1], by simpa using holds, fun _ _ => rfl⟩
  · have below : y ∈ h.children.elems := (List.mem_cons.mp member).resolve_left (Ne.symm atRoot)
    have notRoot : q.pqRoot ≠ some y := by
      rw [holds.1]
      exact fun same => atRoot (Option.some.inj same)
    obtain ⟨root, next, prev, rooted, nodup⟩ := holds
    obtain ⟨mem₁, cy, run, found, rest, restNext, restPrev, rootedY, frame₁⟩ :=
      listRemove_spec rooted prev nodup below
    have cutPerm := cut_perm (List.nodup_cons.mp nodup).2 found
    have restHolds : Holds ⟨q.pqRoot, mem₁⟩ (some ⟨h.root, h.children.cut y⟩) :=
      ⟨root, restNext.trans next, restPrev, rest,
        (List.nodup_cons.mpr ⟨fun inCut => (List.nodup_cons.mp nodup).1 (elems_cut_subset y _ inCut),
          (List.nodup_append.mp (cutPerm.nodup_iff.mpr (List.nodup_cons.mp nodup).2)).1⟩)⟩
    have pairNodup : (Heap.membersOf (some (⟨h.root, h.children.cut y⟩ : Heap Nat)) ++
        (⟨y, cy⟩ : Heap Nat).members).Nodup := by
      have whole := (List.Perm.cons h.root cutPerm).nodup_iff.mpr nodup
      simpa using whole
    obtain ⟨inserted, frame₂⟩ := insert_spec maxHeap compare restHolds rootedY pairNodup
      (fun absent => by cases absent)
    refine ⟨(insert maxHeap compare ⟨q.pqRoot, mem₁⟩ y).1, (insert maxHeap compare ⟨q.pqRoot, mem₁⟩ y).2,
      by simp [notRoot, run], by simpa [found, atRoot] using inserted, ?_⟩
    intro w notIn
    have notChildren : w ∉ h.children.elems := fun inC => notIn (List.mem_cons_of_mem _ inC)
    rw [frame₂ w (fun hw => ?_) (fun hw => ?_)]
    · exact frame₁ w notIn
    · rcases List.mem_cons.mp hw with atR | inCut
      · exact notIn (atR ▸ List.mem_cons_self)
      · exact notChildren (elems_cut_subset y _ inCut)
    · exact notChildren (cutPerm.subset (List.mem_append_right _ hw))

/-- `sift_down` of a member: removed, zeroed and inserted again alone. -/
theorem siftDown_spec {fuel : Nat} {q : PqState} {h : Heap Nat} {y : Nat}
    (holds : Holds q (some h)) (member : y ∈ h.members) (enough : h.members.length ≤ fuel) :
    ∃ q' wasRoot, siftDown maxHeap compare fuel q y = some (q', wasRoot) ∧
      Holds q' (some (Heap.merge (beats maxHeap compare) (Heap.remove (beats maxHeap compare) y h) ⟨y, leaf⟩)) ∧
      ∀ w ∉ h.members, q'.mem w = q.mem w := by
  obtain ⟨q₁, wasRoot, run, holds₁, zeroed, frame₁⟩ := remove_spec maxHeap compare holds member enough
  have removedPerm := Heap.remove_perm (beats maxHeap compare) holds.2.2.2.2 member
  have alone : (Heap.membersOf (Heap.remove (beats maxHeap compare) y h) ++ (⟨y, leaf⟩ : Heap Nat).members).Nodup := by
    show (_ ++ [y]).Nodup
    exact (List.perm_append_singleton y _).nodup_iff.mpr (removedPerm.nodup_iff.mpr holds.2.2.2.2)
  have rootedY : Rooted q₁.mem ⟨y, leaf⟩ := ⟨by simp [zeroed, PriorityQueueEntry.init], trivial, trivial⟩
  obtain ⟨inserted, frame₂⟩ := insert_spec maxHeap compare holds₁ rootedY alone
    (fun _ => by simp [zeroed, PriorityQueueEntry.init])
  refine ⟨_, wasRoot, by simp [siftDown, run], inserted, ?_⟩
  intro w notIn
  have ne : w ≠ y := fun same => notIn (same ▸ member)
  rw [frame₂ w (fun hw => notIn (removedPerm.subset (List.mem_cons_of_mem _ hw)))
    (fun hw => ne (by simpa using hw)), frame₁ w notIn]

end Ops

end Xnu.PriorityQueue
