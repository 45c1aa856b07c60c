import Xnu.PriorityQueue.Linked

namespace Xnu.PriorityQueue

open LcrsTree

/-! The two phases of `meld_pair`. Phase 1 walks a sibling chain through `next`,
melds neighbours and pushes each pair on a stack threaded through the pairs'
`prev`; phase 2 pops the stack into one heap. Each phase refines its abstract
counterpart `Heap.pairUp` and `Heap.mergeAll`. -/

/-- The stack of phase 1: `top` and the `prev` chain from it run through the roots
of `pairs`, each laid out with a NULL `next`. -/
def Stacked (mem : Memory) : Option Nat → List (Heap Nat) → Prop
  | top, [] => top = none
  | top, h :: rest => top = some h.root ∧ Rooted mem h ∧ (mem h.root).next = none ∧
      Stacked mem (mem h.root).prev rest

theorem stacked_nil (mem : Memory) : Stacked mem none [] := by
  unfold Stacked
  rfl

theorem Stacked.frame_of_eq {mem mem' : Memory} :
    ∀ {top : Option Nat} {pairs : List (Heap Nat)}, Stacked mem top pairs →
      (∀ w ∈ pairs.flatMap Heap.members, mem' w = mem w) → Stacked mem' top pairs
  | _, [], empty, _ => empty
  | _, h :: rest, ⟨top, rooted, next, below⟩, same => by
    have atRoot := same h.root (List.mem_append_left _ List.mem_cons_self)
    refine ⟨top, rooted.frame_of_eq fun w hw => same w (List.mem_append_left _ hw), ?_, ?_⟩
    · rw [atRoot]
      exact next
    · rw [atRoot]
      exact below.frame_of_eq fun w hw => same w (List.mem_append_right _ hw)

section Phases

variable (maxHeap : Bool) (compare : Nat → Nat → Int)

/-- The odd last element of the chain is pushed as it is. -/
theorem pushOdd_spec {mem : Memory} {a : Nat} {ca : LcrsTree Nat} {pairList : Option Nat}
    {acc : List (Heap Nat)} (linked : Linked mem (node a ca leaf)) (stacked : Stacked mem pairList acc)
    (nodup : ((node a ca leaf).elems ++ acc.flatMap Heap.members).Nodup) :
    Stacked (setPrev mem a pairList) (some a) (⟨a, ca⟩ :: acc) := by
  have notBelow : a ∉ ca.elems := by
    have chain := List.Nodup.of_append_left nodup
    simpa using (List.nodup_cons.mp chain).1
  have notAcc : a ∉ acc.flatMap Heap.members := nodup.disjoint List.mem_cons_self
  refine ⟨rfl, ?_, ?_, ?_⟩
  · refine linked.rooted.frame (by simp) fun w hw => setPrev_of_ne mem a w _ ?_
    exact fun same => notBelow (same ▸ hw)
  · simpa using linked.2.1
  · simp only [setPrev_prev, if_true]
    exact stacked.frame_of_eq fun w hw =>
      setPrev_of_ne mem a w _ fun same => notAcc (same ▸ hw)

/-- One round of phase 1: the first two elements of the chain are melded and the
pair is pushed; the rest of the chain keeps its layout. -/
theorem pushPair_spec {mem : Memory} {a b : Nat} {ca cb rest : LcrsTree Nat}
    {pairList : Option Nat} {acc : List (Heap Nat)}
    (linked : Linked mem (node a ca (node b cb rest))) (stacked : Stacked mem pairList acc)
    (nodup : ((node a ca (node b cb rest)).elems ++ acc.flatMap Heap.members).Nodup) :
    let merged := mergePairInline maxHeap compare mem (some a) b
    let pair := Heap.link (beats maxHeap compare) ⟨a, ca⟩ ⟨b, cb⟩
    let mem' := setPrev merged.1 merged.2 pairList
    merged.2 = pair.root ∧ Stacked mem' (some merged.2) (pair :: acc) ∧ Linked mem' rest ∧
      ∀ w, w ∉ (⟨a, ca⟩ : Heap Nat).members → w ∉ (⟨b, cb⟩ : Heap Nat).members → mem' w = mem w := by
  have split : (node a ca (node b cb rest)).elems =
      (⟨a, ca⟩ : Heap Nat).members ++ (⟨b, cb⟩ : Heap Nat).members ++ rest.elems := by simp
  rw [split] at nodup
  have pairNodup := (nodup.of_append_left).of_append_left
  have ne : a ≠ b := fun same =>
    pairNodup.disjoint (List.mem_cons_self : a ∈ (⟨a, ca⟩ : Heap Nat).members) (same ▸ List.mem_cons_self)
  have parts := mergeRoots_spec maxHeap compare linked.rooted linked.2.2.2.2.2.rooted pairNodup
  simp only [mergePairInline, ne, if_false]
  obtain ⟨root, rooted, next, -, frame⟩ := parts
  -- the pair's members, in any order
  have pairPerm := Heap.link_perm (beats maxHeap compare) ⟨a, ca⟩ ⟨b, cb⟩
  have inPair : ∀ w, w ∈ (Heap.link (beats maxHeap compare) ⟨a, ca⟩ ⟨b, cb⟩).members →
      w ∈ (⟨a, ca⟩ : Heap Nat).members ++ (⟨b, cb⟩ : Heap Nat).members := fun w hw => pairPerm.subset hw
  have pairRootIn := inPair _ List.mem_cons_self
  have outside : ∀ w, w ∉ (⟨a, ca⟩ : Heap Nat).members → w ∉ (⟨b, cb⟩ : Heap Nat).members →
      w ≠ (mergeRoots maxHeap compare mem a b).2 := by
    intro w notA notB same
    rw [root] at same
    subst same
    rcases List.mem_append.mp pairRootIn with inA | inB
    · exact notA inA
    · exact notB inB
  have restOut : ∀ w ∈ rest.elems, w ∉ (⟨a, ca⟩ : Heap Nat).members ∧ w ∉ (⟨b, cb⟩ : Heap Nat).members :=
    fun w hw => ⟨fun inA => (nodup.of_append_left).disjoint (List.mem_append_left _ inA) hw,
      fun inB => (nodup.of_append_left).disjoint (List.mem_append_right _ inB) hw⟩
  have accOut : ∀ w ∈ acc.flatMap Heap.members,
      w ∉ (⟨a, ca⟩ : Heap Nat).members ∧ w ∉ (⟨b, cb⟩ : Heap Nat).members :=
    fun w hw => ⟨fun inA => nodup.disjoint (List.mem_append_left _ (List.mem_append_left _ inA)) hw,
      fun inB => nodup.disjoint (List.mem_append_left _ (List.mem_append_right _ inB)) hw⟩
  have rootNodup : ((Heap.link (beats maxHeap compare) ⟨a, ca⟩ ⟨b, cb⟩).members).Nodup :=
    pairPerm.nodup_iff.mpr pairNodup
  refine ⟨root, ⟨congrArg some root, ?_, ?_, ?_⟩, ?_, ?_⟩
  · refine rooted.frame (by simp) fun w hw => setPrev_of_ne _ _ w _ ?_
    rw [root]
    exact fun same => (List.nodup_cons.mp rootNodup).1 (same ▸ hw)
  · simpa [root] using next
  · rw [setPrev_prev, if_pos root.symm]
    refine stacked.frame_of_eq fun w hw => ?_
    obtain ⟨notA, notB⟩ := accOut w hw
    rw [setPrev_of_ne _ _ w _ (outside w notA notB)]
    exact frame w notA notB
  · refine linked.2.2.2.2.2.2.2.2.2.2.frame_of_eq fun w hw => ?_
    obtain ⟨notA, notB⟩ := restOut w hw
    rw [setPrev_of_ne _ _ w _ (outside w notA notB)]
    exact frame w notA notB
  · intro w notA notB
    rw [setPrev_of_ne _ _ w _ (outside w notA notB)]
    exact frame w notA notB

/-- Phase 1 runs to the end of the chain with one unit of fuel per pair and
leaves on the stack the pairs of `Heap.pairUp`. -/
theorem meldPairPhase1_spec : ∀ (fuel : Nat) {mem : Memory} {a : Nat} {ca rest : LcrsTree Nat}
    {pairList : Option Nat} {acc : List (Heap Nat)},
    Linked mem (node a ca rest) → Stacked mem pairList acc →
    ((node a ca rest).elems ++ acc.flatMap Heap.members).Nodup →
    (node a ca rest).spine.length ≤ fuel →
    ∃ mem' top, meldPairPhase1 maxHeap compare fuel mem a pairList = some (mem', top) ∧
      Stacked mem' (some top) (Heap.pairUp (beats maxHeap compare) acc (node a ca rest)) ∧
      ∀ w ∉ (node a ca rest).elems, mem' w = mem w
  | 0, _, _, _, _, _, _, _, _, _, enough => by simp at enough
  | fuel + 1, mem, a, ca, .leaf, pairList, acc, linked, stacked, nodup, _ => by
    refine ⟨setPrev mem a pairList, a, ?_, pushOdd_spec linked stacked nodup, ?_⟩
    · simp [meldPairPhase1, linked.2.1]
    · intro w notIn
      exact setPrev_of_ne mem a w _ fun same => notIn (same ▸ List.mem_cons_self)
  | fuel + 1, mem, a, ca, .node b cb rest, pairList, acc, linked, stacked, nodup, enough => by
    obtain ⟨root, pushed, linkedRest, frame⟩ := pushPair_spec maxHeap compare linked stacked nodup
    have inChain : ∀ w, w ∉ (node a ca (node b cb rest)).elems →
        w ∉ (⟨a, ca⟩ : Heap Nat).members ∧ w ∉ (⟨b, cb⟩ : Heap Nat).members :=
      fun w notIn => ⟨fun inA => notIn (by simp_all), fun inB => notIn (by simp_all)⟩
    have nextA : (mem a).next = some b := linked.2.1
    have nextB : (mem b).next = rest.top := linked.2.2.2.2.2.2.1
    cases rest with
    | leaf =>
      refine ⟨_, _, ?_, pushed, fun w notIn => frame w (inChain w notIn).1 (inChain w notIn).2⟩
      simp only [top_leaf] at nextB
      simp [meldPairPhase1, nextA, nextB]
    | node e ce rest' =>
      have restNodup : ((node e ce rest').elems ++
          (Heap.link (beats maxHeap compare) ⟨a, ca⟩ ⟨b, cb⟩ :: acc).flatMap Heap.members).Nodup := by
        have pairPerm := Heap.link_perm (beats maxHeap compare) ⟨a, ca⟩ ⟨b, cb⟩
        have swap : List.Perm ((node e ce rest').elems ++
            ((Heap.link (beats maxHeap compare) ⟨a, ca⟩ ⟨b, cb⟩).members ++ acc.flatMap Heap.members))
            ((Heap.link (beats maxHeap compare) ⟨a, ca⟩ ⟨b, cb⟩).members ++ (node e ce rest').elems ++
              acc.flatMap Heap.members) := by
          rw [← List.append_assoc]
          exact List.perm_append_comm.append_right _
        have chainEq : (node a ca (node b cb (node e ce rest'))).elems =
            (⟨a, ca⟩ : Heap Nat).members ++ (⟨b, cb⟩ : Heap Nat).members ++ (node e ce rest').elems := by
          simp
        have reorder := swap.trans ((pairPerm.append_right (node e ce rest').elems).append_right
          (acc.flatMap Heap.members))
        rw [← chainEq] at reorder
        simpa using reorder.nodup_iff.mpr nodup
      have enough' : (node e ce rest').spine.length ≤ fuel := by
        simp only [spine_node, List.length_cons] at enough ⊢
        omega
      obtain ⟨mem', top, run, stack, frame'⟩ :=
        meldPairPhase1_spec fuel linkedRest pushed restNodup enough'
      refine ⟨mem', top, ?_, by simpa [Heap.pairUp] using stack, ?_⟩
      · simp only [top_node] at nextB
        simpa [meldPairPhase1, nextA, nextB] using run
      intro w notIn
      have notRest : w ∉ (node e ce rest').elems := fun inRest => notIn (by simp_all)
      rw [frame' w notRest]
      exact frame w (inChain w notIn).1 (inChain w notIn).2

/-- Phase 2 pops every pair into the result, one unit of fuel per pair; the final
root has NULL `next` and `prev`. -/
theorem meldPairPhase2_spec : ∀ (fuel : Nat) {mem : Memory} {result : Option (Heap Nat)}
    {h : Heap Nat} {pairs : List (Heap Nat)},
    (∀ g ∈ result, Rooted mem g) → Stacked mem (some h.root) (h :: pairs) →
    (Heap.membersOf result ++ (h :: pairs).flatMap Heap.members).Nodup →
    (h :: pairs).length ≤ fuel →
    ∃ mem' g, Heap.mergeAll (beats maxHeap compare) result (h :: pairs) = some g ∧
      meldPairPhase2 maxHeap compare fuel mem (result.map Heap.root) h.root = some (mem', g.root) ∧
      Rooted mem' g ∧ (mem' g.root).next = none ∧ (mem' g.root).prev = none ∧
      ∀ w, w ∉ Heap.membersOf result → w ∉ (h :: pairs).flatMap Heap.members → mem' w = mem w
  | 0, _, _, _, _, _, _, _, enough => by simp at enough
  | fuel + 1, mem, result, h, pairs, first, ⟨_, rooted, next, below⟩, nodup, enough => by
    have pairNodup : (Heap.membersOf result ++ h.members).Nodup := by
      simp only [List.flatMap_cons, ← List.append_assoc] at nodup
      exact nodup.of_append_left
    obtain ⟨root, merged, closed, frame⟩ := mergePairInline_spec maxHeap compare first rooted pairNodup
    have mergedPerm := Heap.merge_perm (beats maxHeap compare) result h
    cases pairs with
    | nil =>
      have last : (mem h.root).prev = none := below
      have closedAll : ((mergePairInline maxHeap compare mem (result.map Heap.root) h.root).1
            (Heap.merge (beats maxHeap compare) result h).root).next = none ∧
          ((mergePairInline maxHeap compare mem (result.map Heap.root) h.root).1
            (Heap.merge (beats maxHeap compare) result h).root).prev = none := by
        cases result with
        | none => exact ⟨next, last⟩
        | some g => exact closed rfl
      refine ⟨_, _, rfl, ?_, merged, closedAll.1, closedAll.2, ?_⟩
      · simp only [meldPairPhase2, last]
        rw [← root]
      · intro w notResult notPairs
        exact frame w notResult (by simpa using notPairs)
    | cons h' rest =>
      obtain ⟨prevEq, stackRest⟩ := below
      have split : Heap.membersOf result ++ (h :: h' :: rest).flatMap Heap.members =
          Heap.membersOf result ++ h.members ++ (h' :: rest).flatMap Heap.members := by
        simp only [List.flatMap_cons, List.append_assoc]
      rw [split] at nodup
      have restOut : ∀ w ∈ (h' :: rest).flatMap Heap.members,
          w ∉ Heap.membersOf result ∧ w ∉ h.members := by
        intro w hw
        exact ⟨fun inResult => nodup.disjoint (List.mem_append_left _ inResult) hw,
          fun inH => nodup.disjoint (List.mem_append_right _ inH) hw⟩
      have stacked' : Stacked (mergePairInline maxHeap compare mem (result.map Heap.root) h.root).1
          (some h'.root) (h' :: rest) :=
        (show Stacked mem (some h'.root) (h' :: rest) from ⟨rfl, stackRest⟩).frame_of_eq
          fun w hw => frame w (restOut w hw).1 (restOut w hw).2
      have nodup' : (Heap.membersOf (some (Heap.merge (beats maxHeap compare) result h)) ++
          (h' :: rest).flatMap Heap.members).Nodup := by
        exact (mergedPerm.append_right _).nodup_iff.mpr nodup
      have enough' : (h' :: rest).length ≤ fuel := by
        simp only [List.length_cons] at enough ⊢
        omega
      obtain ⟨mem', g, folded, run, rootedG, nextG, prevG, frame'⟩ :=
        meldPairPhase2_spec fuel (fun x same => by cases same; exact merged) stacked' nodup' enough'
      refine ⟨mem', g, by simpa [Heap.mergeAll] using folded, ?_, rootedG, nextG, prevG, ?_⟩
      · simp only [meldPairPhase2, prevEq]
        simp only [Option.map_some] at run
        rw [← root] at run
        exact run
      · intro w notResult notPairs
        have notH : w ∉ h.members := fun inH => notPairs (List.mem_append_left _ inH)
        have notRest : w ∉ (h' :: rest).flatMap Heap.members :=
          fun inRest => notPairs (List.mem_append_right _ inRest)
        have notMerged : w ∉ Heap.membersOf (some (Heap.merge (beats maxHeap compare) result h)) := by
          intro inMerged
          rcases List.mem_append.mp (mergedPerm.subset inMerged) with inResult | inH
          · exact notResult inResult
          · exact notH inH
        rw [frame' w notMerged notRest]
        exact frame w notResult notH

/-- `meld_pair` on a laid out sibling chain lays out `Heap.meld` of the chain,
touching nothing outside the chain. -/
theorem meldPair_spec {fuel : Nat} {mem : Memory} {a : Nat} {ca rest : LcrsTree Nat}
    (linked : Linked mem (node a ca rest)) (nodup : (node a ca rest).elems.Nodup)
    (enough : (node a ca rest).spine.length ≤ fuel) :
    ∃ mem' g, Heap.meld (beats maxHeap compare) (node a ca rest) = some g ∧
      meldPair maxHeap compare fuel mem a = some (mem', g.root) ∧ Rooted mem' g ∧
      (mem' g.root).next = none ∧ (mem' g.root).prev = none ∧
      ∀ w ∉ (node a ca rest).elems, mem' w = mem w := by
  obtain ⟨mem₁, top, phase1, stacked, frame₁⟩ :=
    meldPairPhase1_spec maxHeap compare fuel linked (stacked_nil mem)
      (by simpa using nodup) enough
  have pairsPerm := Heap.pairUp_perm (beats maxHeap compare) [] (node a ca rest)
  have pairsLength := Heap.pairUp_length_le (beats maxHeap compare) [] (node a ca rest)
  cases pairs : Heap.pairUp (beats maxHeap compare) [] (node a ca rest) with
  | nil =>
    rw [pairs] at stacked
    cases stacked
  | cons h rest' =>
    rw [pairs] at stacked pairsPerm pairsLength
    obtain ⟨topEq, stackRest⟩ := stacked
    cases topEq
    simp only [List.length_nil, Nat.zero_add] at pairsLength
    obtain ⟨mem', g, folded, phase2, rooted, next, prev, frame₂⟩ :=
      meldPairPhase2_spec maxHeap compare fuel
        (show ∀ g ∈ (none : Option (Heap Nat)), Rooted mem₁ g from fun _ absent => by cases absent)
        ⟨rfl, stackRest⟩ (by simpa using pairsPerm.nodup_iff.mpr nodup) (pairsLength.trans enough)
    simp only [Option.map_none] at phase2
    refine ⟨mem', g, by simpa [Heap.meld, pairs] using folded, ?_, rooted, next, prev, ?_⟩
    · simp [meldPair, phase1, phase2]
    · intro w notIn
      rw [frame₂ w (by simp) (fun inPairs => notIn (pairsPerm.subset inPairs)), frame₁ w notIn]

end Phases

end Xnu.PriorityQueue
