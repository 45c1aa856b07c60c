import Mathlib

namespace Xnu

/-! Pairing heaps in left-child right-sibling form. A node of an `LcrsTree`
holds its first child and its next sibling, so the children of one node are the
`next` chain below its `child`. A `Heap` is a root together with that chain.
The two-pass meld pairs neighbouring siblings left to right and then folds the
pairs from the last one back. -/

inductive LcrsTree (α : Type) where
  | leaf
  | node (x : α) (child next : LcrsTree α)
deriving DecidableEq, Repr

namespace LcrsTree

variable {α : Type}

def top : LcrsTree α → Option α
  | leaf => none
  | node x _ _ => some x

/-- Every node, in preorder. -/
def elems : LcrsTree α → List α
  | leaf => []
  | node x c n => x :: (c.elems ++ n.elems)

/-- Every node but the top. -/
def inner : LcrsTree α → List α
  | leaf => []
  | node _ c n => c.elems ++ n.elems

/-- The nodes of one level: the top and its `next` successors. -/
def spine : LcrsTree α → List α
  | leaf => []
  | node x _ n => x :: n.spine

/-- No node has a child placed above it: `le y x` for every child `y` of `x`. -/
def Ordered (le : α → α → Prop) : LcrsTree α → Prop
  | leaf => True
  | node x c n => (∀ y ∈ c.spine, le y x) ∧ c.Ordered le ∧ n.Ordered le

@[simp] theorem top_leaf : (leaf : LcrsTree α).top = none := rfl
@[simp] theorem top_node (x : α) (c n : LcrsTree α) : (node x c n).top = some x := rfl
@[simp] theorem elems_leaf : (leaf : LcrsTree α).elems = [] := rfl
@[simp] theorem elems_node (x : α) (c n : LcrsTree α) :
    (node x c n).elems = x :: (c.elems ++ n.elems) := rfl
@[simp] theorem inner_leaf : (leaf : LcrsTree α).inner = [] := rfl
@[simp] theorem inner_node (x : α) (c n : LcrsTree α) :
    (node x c n).inner = c.elems ++ n.elems := rfl
@[simp] theorem spine_leaf : (leaf : LcrsTree α).spine = [] := rfl
@[simp] theorem spine_node (x : α) (c n : LcrsTree α) : (node x c n).spine = x :: n.spine := rfl
@[simp] theorem ordered_leaf (le : α → α → Prop) : (leaf : LcrsTree α).Ordered le := trivial
@[simp] theorem ordered_node (le : α → α → Prop) (x : α) (c n : LcrsTree α) :
    (node x c n).Ordered le ↔ (∀ y ∈ c.spine, le y x) ∧ c.Ordered le ∧ n.Ordered le := Iff.rfl

theorem spine_subset : ∀ t : LcrsTree α, t.spine ⊆ t.elems
  | leaf => by simp
  | node x c n => by
    intro y member
    rcases List.mem_cons.mp member with rfl | later
    · exact List.mem_cons_self
    · exact List.mem_cons_of_mem _ (List.mem_append_right _ (spine_subset n later))

theorem inner_subset : ∀ t : LcrsTree α, t.inner ⊆ t.elems
  | leaf => by simp
  | node x c n => List.subset_cons_self x _

theorem top_not_mem_inner {t : LcrsTree α} {x : α} (nodup : t.elems.Nodup) (top : t.top = some x) :
    x ∉ t.inner := by
  cases t with
  | leaf => cases top
  | node y c n =>
    cases Option.some.inj top
    exact (List.nodup_cons.mp nodup).1

theorem spine_length_le : ∀ t : LcrsTree α, t.spine.length ≤ t.elems.length
  | leaf => le_rfl
  | node x c n => by
    have := spine_length_le n
    simp only [spine_node, elems_node, List.length_cons, List.length_append]
    omega

theorem top_mem {t : LcrsTree α} {x : α} (top : t.top = some x) : x ∈ t.elems := by
  cases t with
  | leaf => cases top
  | node y c n =>
    cases Option.some.inj top
    exact List.mem_cons_self

/-- Every node lies below some node of the top level. -/
theorem Ordered.below_spine {le : α → α → Prop} [IsTrans α le] [Std.Refl le] :
    ∀ {t : LcrsTree α}, t.Ordered le → ∀ z ∈ t.elems, ∃ s ∈ t.spine, le z s
  | leaf, _, z, member => by simp at member
  | node x c n, ⟨children, belowChild, belowNext⟩, z, member => by
    simp only [elems_node, List.mem_cons, List.mem_append] at member
    rcases member with rfl | inChild | inNext
    · exact ⟨z, List.mem_cons_self, refl_of le z⟩
    · obtain ⟨s, onSpine, zs⟩ := belowChild.below_spine z inChild
      exact ⟨x, List.mem_cons_self, trans_of le zs (children s onSpine)⟩
    · obtain ⟨s, onSpine, zs⟩ := belowNext.below_spine z inNext
      exact ⟨s, List.mem_cons_of_mem _ onSpine, zs⟩

/-- Heap order survives a change of the order that keeps every related pair of
nodes of the tree related. -/
theorem Ordered.imp_on {le le' : α → α → Prop} :
    ∀ {t : LcrsTree α}, t.Ordered le →
      (∀ a ∈ t.elems, ∀ b ∈ t.elems, le a b → le' a b) → t.Ordered le'
  | leaf, _, _ => trivial
  | node x c n, ⟨children, belowChild, belowNext⟩, keep => by
    refine ⟨fun y onSpine => keep y ?_ x List.mem_cons_self (children y onSpine), ?_, ?_⟩
    · exact List.mem_cons_of_mem _ (List.mem_append_left _ (spine_subset c onSpine))
    · exact belowChild.imp_on fun a ha b hb =>
        keep a (by simp [ha]) b (by simp [hb])
    · exact belowNext.imp_on fun a ha b hb =>
        keep a (by simp [ha]) b (by simp [hb])

variable [DecidableEq α]

/-- Unhook the node `y` with all its children; its next sibling takes its place. -/
def cut (y : α) : LcrsTree α → LcrsTree α
  | leaf => leaf
  | node x c n => if x = y then n else node x (c.cut y) (n.cut y)

/-- The children of the node `y`, if `y` occurs. -/
def childrenOf (y : α) : LcrsTree α → Option (LcrsTree α)
  | leaf => none
  | node x c n => if x = y then some c else (c.childrenOf y).or (n.childrenOf y)

theorem cut_of_not_mem {y : α} : ∀ {t : LcrsTree α}, y ∉ t.elems → t.cut y = t
  | leaf, _ => rfl
  | node x c n, absent => by
    have ne : x ≠ y := fun same => absent (by simp [same])
    have notChild : y ∉ c.elems := fun inChild => absent (by simp [inChild])
    have notNext : y ∉ n.elems := fun inNext => absent (by simp [inNext])
    simp [cut, ne, cut_of_not_mem notChild, cut_of_not_mem notNext]

theorem childrenOf_eq_none {y : α} : ∀ {t : LcrsTree α}, y ∉ t.elems → t.childrenOf y = none
  | leaf, _ => rfl
  | node x c n, absent => by
    have ne : x ≠ y := fun same => absent (by simp [same])
    have notChild : y ∉ c.elems := fun inChild => absent (by simp [inChild])
    have notNext : y ∉ n.elems := fun inNext => absent (by simp [inNext])
    simp [childrenOf, ne, childrenOf_eq_none notChild, childrenOf_eq_none notNext]

theorem childrenOf_isSome {y : α} : ∀ {t : LcrsTree α}, y ∈ t.elems → ∃ c, t.childrenOf y = some c
  | leaf, member => by simp at member
  | node x c n, member => by
    by_cases here : x = y
    · exact ⟨c, by simp [childrenOf, here]⟩
    · simp only [elems_node, List.mem_cons, List.mem_append] at member
      rcases member with rfl | inChild | inNext
      · exact absurd rfl here
      · obtain ⟨cy, found⟩ := childrenOf_isSome inChild
        exact ⟨cy, by simp [childrenOf, here, found]⟩
      · obtain ⟨cy, found⟩ := childrenOf_isSome inNext
        cases inC : c.childrenOf y with
        | none => exact ⟨cy, by simp [childrenOf, here, inC, found]⟩
        | some cc => exact ⟨cc, by simp [childrenOf, here, inC]⟩

theorem spine_cut_subset (y : α) : ∀ t : LcrsTree α, (t.cut y).spine ⊆ t.spine
  | leaf => by simp [cut]
  | node x c n => by
    by_cases here : x = y
    · simp only [cut, here, if_true, spine_node]
      exact List.subset_cons_of_subset _ (List.Subset.refl _)
    · simp only [cut, here, if_false, spine_node]
      exact List.cons_subset_cons _ (spine_cut_subset y n)

theorem elems_cut_subset (y : α) : ∀ t : LcrsTree α, (t.cut y).elems ⊆ t.elems
  | leaf => by simp [cut]
  | node x c n => by
    by_cases here : x = y
    · simp only [cut, here, if_true, elems_node]
      exact List.subset_cons_of_subset _ (List.subset_append_right _ _)
    · simp only [cut, here, if_false, elems_node]
      intro z member
      simp only [List.mem_cons, List.mem_append] at member ⊢
      rcases member with rfl | inChild | inNext
      · exact Or.inl rfl
      · exact Or.inr (Or.inl (elems_cut_subset y c inChild))
      · exact Or.inr (Or.inr (elems_cut_subset y n inNext))

theorem Ordered.cut {le : α → α → Prop} (y : α) :
    ∀ {t : LcrsTree α}, t.Ordered le → (t.cut y).Ordered le
  | leaf, _ => trivial
  | node x c n, ⟨children, belowChild, belowNext⟩ => by
    by_cases here : x = y
    · simpa [LcrsTree.cut, here] using belowNext
    · simp only [LcrsTree.cut, here, if_false, ordered_node]
      exact ⟨fun z onSpine => children z (spine_cut_subset y c onSpine),
        belowChild.cut y, belowNext.cut y⟩

theorem Ordered.childrenOf {le : α → α → Prop} {y : α} :
    ∀ {t c : LcrsTree α}, t.Ordered le → t.childrenOf y = some c →
      (∀ z ∈ c.spine, le z y) ∧ c.Ordered le
  | leaf, _, _, found => by cases found
  | node x cx n, c, ⟨children, belowChild, belowNext⟩, found => by
    by_cases here : x = y
    · simp only [LcrsTree.childrenOf, here, if_true, Option.some.injEq] at found
      subst here found
      exact ⟨children, belowChild⟩
    · simp only [LcrsTree.childrenOf, here, if_false] at found
      cases inC : cx.childrenOf y with
      | some cc =>
        rw [inC, Option.some_or, Option.some.injEq] at found
        exact belowChild.childrenOf (found ▸ inC)
      | none =>
        rw [inC, Option.none_or] at found
        exact belowNext.childrenOf found

theorem childrenOf_elems_subset {y : α} :
    ∀ {t c : LcrsTree α}, t.childrenOf y = some c → c.elems ⊆ t.elems
  | leaf, _, found => by cases found
  | node x cx n, c, found => by
    by_cases here : x = y
    · simp only [childrenOf, here, if_true, Option.some.injEq] at found
      subst found
      intro z member
      simp [member]
    · simp only [childrenOf, here, if_false] at found
      cases inC : cx.childrenOf y with
      | some cc =>
        rw [inC, Option.some_or, Option.some.injEq] at found
        intro z member
        have := childrenOf_elems_subset (found ▸ inC) member
        simp [this]
      | none =>
        rw [inC, Option.none_or] at found
        intro z member
        have := childrenOf_elems_subset found member
        simp [this]

/-- Cutting `y` out leaves the other nodes: the cut tree, `y` and its children
together are a permutation of the tree. -/
theorem cut_perm {y : α} :
    ∀ {t c : LcrsTree α}, t.elems.Nodup → t.childrenOf y = some c →
      ((t.cut y).elems ++ y :: c.elems).Perm t.elems
  | leaf, _, _, found => by cases found
  | node x cx n, c, nodup, found => by
    have parts := List.nodup_cons.mp nodup
    have disjoint := List.nodup_append.mp parts.2
    by_cases here : x = y
    · simp only [childrenOf, here, if_true, Option.some.injEq] at found
      subst here found
      simp only [cut, if_true, elems_node]
      exact List.perm_append_comm
    · simp only [childrenOf, here, if_false] at found
      simp only [cut, here, if_false, elems_node, List.cons_append]
      refine List.Perm.cons x ?_
      cases inC : cx.childrenOf y with
      | some cc =>
        rw [inC, Option.some_or, Option.some.injEq] at found
        subst found
        have inChild : y ∈ cx.elems := by
          by_contra notIn
          rw [childrenOf_eq_none notIn] at inC
          cases inC
        have notNext : y ∉ n.elems := fun inNext => disjoint.2.2 y inChild y inNext rfl
        rw [cut_of_not_mem notNext]
        have moved : List.Perm ((cx.cut y).elems ++ n.elems ++ y :: cc.elems)
            ((cx.cut y).elems ++ y :: cc.elems ++ n.elems) := by
          simpa only [List.append_assoc] using
            List.Perm.append_left (cx.cut y).elems List.perm_append_comm
        exact moved.trans ((cut_perm disjoint.1 inC).append_right n.elems)
      | none =>
        rw [inC, Option.none_or] at found
        have notChild : y ∉ cx.elems := by
          intro inChild
          obtain ⟨cc, some⟩ := childrenOf_isSome inChild
          rw [inC] at some
          cases some
        rw [cut_of_not_mem notChild, List.append_assoc]
        exact (cut_perm disjoint.2.1 found).append_left cx.elems

end LcrsTree

/-- A non-empty pairing heap: its root and the chain of the root's children. -/
structure Heap (α : Type) where
  root : α
  children : LcrsTree α
deriving DecidableEq, Repr

namespace Heap

variable {α : Type}

def members (h : Heap α) : List α := h.root :: h.children.elems

/-- The members of a possibly empty heap. -/
def membersOf : Option (Heap α) → List α
  | none => []
  | some h => h.members

def Ordered (le : α → α → Prop) (h : Heap α) : Prop :=
  (∀ y ∈ h.children.spine, le y h.root) ∧ h.children.Ordered le

/-- `beats a b` picks `b` as the parent of a meld; `Decides beats le` says
that the loser of each meld is placed below the winner. -/
def Decides (beats : α → α → Bool) (le : α → α → Prop) : Prop :=
  ∀ a b, (beats a b = true → le a b) ∧ (beats a b = false → le b a)

/-- Meld two heaps: the loser becomes the first child of the winner. -/
def link (beats : α → α → Bool) (g h : Heap α) : Heap α :=
  if beats g.root h.root then ⟨h.root, .node g.root g.children h.children⟩
  else ⟨g.root, .node h.root h.children g.children⟩

def merge (beats : α → α → Bool) : Option (Heap α) → Heap α → Heap α
  | none, h => h
  | some g, h => link beats g h

/-- First pass over a sibling chain: meld neighbours left to right, pushing each
pair on `acc`, so that the last pair ends up first. -/
def pairUp (beats : α → α → Bool) : List (Heap α) → LcrsTree α → List (Heap α)
  | acc, .leaf => acc
  | acc, .node a ca .leaf => ⟨a, ca⟩ :: acc
  | acc, .node a ca (.node b cb rest) => pairUp beats (link beats ⟨a, ca⟩ ⟨b, cb⟩ :: acc) rest

/-- Second pass: merge the pairs into the running result, first pair of the list first. -/
def mergeAll (beats : α → α → Bool) (result : Option (Heap α)) : List (Heap α) → Option (Heap α)
  | [] => result
  | h :: rest => mergeAll beats (some (merge beats result h)) rest

def meld (beats : α → α → Bool) (siblings : LcrsTree α) : Option (Heap α) :=
  mergeAll beats none (pairUp beats [] siblings)

@[simp] theorem members_mk (x : α) (c : LcrsTree α) :
    (⟨x, c⟩ : Heap α).members = x :: c.elems := rfl
@[simp] theorem membersOf_none : membersOf (none : Option (Heap α)) = [] := rfl
@[simp] theorem membersOf_some (h : Heap α) : membersOf (some h) = h.members := rfl
@[simp] theorem merge_none (beats : α → α → Bool) (h : Heap α) : merge beats none h = h := rfl
@[simp] theorem merge_some (beats : α → α → Bool) (g h : Heap α) :
    merge beats (some g) h = link beats g h := rfl

theorem ordered_single (le : α → α → Prop) (x : α) : (⟨x, .leaf⟩ : Heap α).Ordered le := by
  simp [Ordered]

theorem link_perm (beats : α → α → Bool) (g h : Heap α) :
    (link beats g h).members.Perm (g.members ++ h.members) := by
  unfold link members
  split
  · simp only [LcrsTree.elems_node, List.cons_append]
    exact (List.Perm.swap _ _ _).trans (List.Perm.cons _ List.perm_middle.symm)
  · simp only [LcrsTree.elems_node, List.cons_append]
    exact List.Perm.cons _ ((List.Perm.cons _ List.perm_append_comm).trans List.perm_middle.symm)

theorem merge_perm (beats : α → α → Bool) :
    ∀ (g : Option (Heap α)) (h : Heap α), (merge beats g h).members.Perm (membersOf g ++ h.members)
  | none, h => by simp [merge]
  | some g, h => link_perm beats g h

theorem mem_merge (beats : α → α → Bool) (g : Option (Heap α)) (h : Heap α) {x : α} :
    x ∈ (merge beats g h).members ↔ x ∈ membersOf g ∨ x ∈ h.members :=
  (merge_perm beats g h).mem_iff.trans List.mem_append

theorem nodup_merge (beats : α → α → Bool) {g : Option (Heap α)} {h : Heap α}
    (nodup : (membersOf g ++ h.members).Nodup) : (merge beats g h).members.Nodup :=
  (merge_perm beats g h).nodup_iff.mpr nodup

theorem link_ordered {beats : α → α → Bool} {le : α → α → Prop} (decides : Decides beats le)
    {g h : Heap α} (first : g.Ordered le) (second : h.Ordered le) : (link beats g h).Ordered le := by
  unfold link
  split
  · rename_i wins
    refine ⟨?_, first.1, first.2, second.2⟩
    intro y onSpine
    rcases List.mem_cons.mp onSpine with rfl | later
    · exact (decides _ _).1 wins
    · exact second.1 y later
  · rename_i loses
    refine ⟨?_, second.1, second.2, first.2⟩
    intro y onSpine
    rcases List.mem_cons.mp onSpine with rfl | later
    · exact (decides _ _).2 (by simpa using loses)
    · exact first.1 y later

theorem merge_ordered {beats : α → α → Bool} {le : α → α → Prop} (decides : Decides beats le) :
    ∀ {g : Option (Heap α)} {h : Heap α}, (∀ x ∈ g, x.Ordered le) → h.Ordered le →
      (merge beats g h).Ordered le
  | none, _, _, second => second
  | some _, _, first, second => link_ordered decides (first _ rfl) second

theorem pairUp_perm (beats : α → α → Bool) :
    ∀ (acc : List (Heap α)) (t : LcrsTree α),
      ((pairUp beats acc t).flatMap members).Perm (acc.flatMap members ++ t.elems)
  | acc, .leaf => by simp [pairUp]
  | acc, .node a ca .leaf => by
    simp only [pairUp, List.flatMap_cons, members_mk, LcrsTree.elems_node, LcrsTree.elems_leaf,
      List.append_nil]
    exact List.perm_append_comm
  | acc, .node a ca (.node b cb rest) => by
    have step := pairUp_perm beats (link beats ⟨a, ca⟩ ⟨b, cb⟩ :: acc) rest
    refine step.trans ?_
    simp only [List.flatMap_cons, LcrsTree.elems_node, List.append_assoc]
    have linked := (link_perm beats ⟨a, ca⟩ ⟨b, cb⟩).append_right rest.elems
    simp only [members_mk, List.cons_append, List.append_assoc] at linked
    have swapped : List.Perm
        ((link beats ⟨a, ca⟩ ⟨b, cb⟩).members ++ (acc.flatMap members ++ rest.elems))
        (acc.flatMap members ++ ((link beats ⟨a, ca⟩ ⟨b, cb⟩).members ++ rest.elems)) := by
      simpa only [List.append_assoc] using List.perm_append_comm.append_right rest.elems
    exact swapped.trans (linked.append_left _)

theorem pairUp_ordered {beats : α → α → Bool} {le : α → α → Prop} (decides : Decides beats le) :
    ∀ {acc : List (Heap α)} {t : LcrsTree α}, (∀ h ∈ acc, h.Ordered le) → t.Ordered le →
      ∀ h ∈ pairUp beats acc t, h.Ordered le
  | acc, .leaf, pairs, _ => pairs
  | acc, .node a ca .leaf, pairs, ⟨children, belowChild, _⟩ => by
    simp only [pairUp]
    intro h member
    rcases List.mem_cons.mp member with rfl | earlier
    · exact ⟨children, belowChild⟩
    · exact pairs h earlier
  | acc, .node a ca (.node b cb rest), pairs, ⟨childrenA, belowA, childrenB, belowB, belowRest⟩ => by
    simp only [pairUp]
    refine pairUp_ordered decides ?_ belowRest
    intro h member
    rcases List.mem_cons.mp member with rfl | earlier
    · exact link_ordered decides ⟨childrenA, belowA⟩ ⟨childrenB, belowB⟩
    · exact pairs h earlier

theorem pairUp_length_le (beats : α → α → Bool) :
    ∀ (acc : List (Heap α)) (t : LcrsTree α),
      (pairUp beats acc t).length ≤ acc.length + t.spine.length
  | acc, .leaf => by simp [pairUp]
  | acc, .node a ca .leaf => by simp [pairUp]
  | acc, .node a ca (.node b cb rest) => by
    have step := pairUp_length_le beats (link beats ⟨a, ca⟩ ⟨b, cb⟩ :: acc) rest
    simp only [pairUp, List.length_cons, LcrsTree.spine_node] at step ⊢
    omega

theorem mergeAll_perm (beats : α → α → Bool) :
    ∀ (result : Option (Heap α)) (pairs : List (Heap α)),
      (membersOf (mergeAll beats result pairs)).Perm (membersOf result ++ pairs.flatMap members)
  | result, [] => by simp [mergeAll]
  | result, h :: rest => by
    refine (mergeAll_perm beats _ rest).trans ?_
    simp only [membersOf_some, List.flatMap_cons, ← List.append_assoc]
    exact (merge_perm beats result h).append_right _

theorem mergeAll_ordered {beats : α → α → Bool} {le : α → α → Prop} (decides : Decides beats le) :
    ∀ {result : Option (Heap α)} {pairs : List (Heap α)}, (∀ x ∈ result, x.Ordered le) →
      (∀ h ∈ pairs, h.Ordered le) → ∀ x ∈ mergeAll beats result pairs, x.Ordered le
  | _, [], first, _ => first
  | _, h :: rest, first, pairs => by
    simp only [mergeAll]
    refine mergeAll_ordered decides ?_ (fun h' member => pairs h' (List.mem_cons_of_mem _ member))
    intro x same
    rw [Option.mem_def, Option.some.injEq] at same
    subst same
    exact merge_ordered decides first (pairs h List.mem_cons_self)

theorem mergeAll_isSome (beats : α → α → Bool) :
    ∀ (result : Option (Heap α)) (h : Heap α) (pairs : List (Heap α)),
      ∃ x, mergeAll beats result (h :: pairs) = some x
  | _, _, [] => ⟨_, rfl⟩
  | _, _, h' :: rest => mergeAll_isSome beats _ h' rest

theorem meld_perm (beats : α → α → Bool) (siblings : LcrsTree α) :
    (membersOf (meld beats siblings)).Perm siblings.elems := by
  have first := pairUp_perm beats [] siblings
  simp only [List.flatMap_nil, List.nil_append] at first
  simpa [meld] using (mergeAll_perm beats none _).trans first

theorem meld_ordered {beats : α → α → Bool} {le : α → α → Prop} (decides : Decides beats le)
    {siblings : LcrsTree α} (ordered : siblings.Ordered le) :
    ∀ x ∈ meld beats siblings, x.Ordered le :=
  mergeAll_ordered decides (fun _ none => by cases none)
    (pairUp_ordered decides (fun _ member => by cases member) ordered)

/-- The root of an ordered heap is above every member. -/
theorem Ordered.le_root {le : α → α → Prop} [IsTrans α le] [Std.Refl le] {h : Heap α}
    (ordered : h.Ordered le) : ∀ z ∈ h.members, le z h.root := by
  intro z member
  rcases List.mem_cons.mp member with rfl | inChildren
  · exact refl_of le _
  · obtain ⟨s, onSpine, zs⟩ := ordered.2.below_spine z inChildren
    exact trans_of le zs (ordered.1 s onSpine)

theorem Decides.mono {beats : α → α → Bool} {le le' : α → α → Prop} (decides : Decides beats le)
    (weaker : ∀ a b, le a b → le' a b) : Decides beats le' :=
  fun a b => ⟨fun wins => weaker a b ((decides a b).1 wins),
    fun loses => weaker b a ((decides a b).2 loses)⟩

theorem Ordered.imp_on {le le' : α → α → Prop} {h : Heap α} (ordered : h.Ordered le)
    (keep : ∀ a ∈ h.members, ∀ b ∈ h.members, le a b → le' a b) : h.Ordered le' := by
  refine ⟨fun z onSpine => keep z ?_ h.root List.mem_cons_self (ordered.1 z onSpine),
    ordered.2.imp_on fun a ha b hb =>
      keep a (List.mem_cons_of_mem _ ha) b (List.mem_cons_of_mem _ hb)⟩
  exact List.mem_cons_of_mem _ (LcrsTree.spine_subset _ onSpine)

variable [DecidableEq α]

/-- Remove a node below the root: cut it out, meld its children and merge the
result back under the root's heap. -/
def removeBelow (beats : α → α → Bool) (y : α) (h : Heap α) : Heap α :=
  let rest : Heap α := ⟨h.root, h.children.cut y⟩
  match (h.children.childrenOf y).bind (meld beats) with
  | none => rest
  | some m => link beats rest m

/-- Remove any member. -/
def remove (beats : α → α → Bool) (y : α) (h : Heap α) : Option (Heap α) :=
  if h.root = y then meld beats h.children else some (removeBelow beats y h)

/-- Move a member, with its children, to the top: cut it out and meld it with
what remains. -/
def raise (beats : α → α → Bool) (y : α) (h : Heap α) : Heap α :=
  if h.root = y then h
  else match h.children.childrenOf y with
    | none => h
    | some cy => link beats ⟨h.root, h.children.cut y⟩ ⟨y, cy⟩

theorem remove_root (beats : α → α → Bool) (h : Heap α) :
    remove beats h.root h = meld beats h.children := if_pos rfl

theorem remove_of_ne (beats : α → α → Bool) {y : α} {h : Heap α} (ne : h.root ≠ y) :
    remove beats y h = some (removeBelow beats y h) := if_neg ne

theorem removeBelow_perm (beats : α → α → Bool) {y : α} {h : Heap α} (nodup : h.members.Nodup)
    (below : y ∈ h.children.elems) : (y :: (removeBelow beats y h).members).Perm h.members := by
  obtain ⟨cy, found⟩ := LcrsTree.childrenOf_isSome below
  have cutPerm := LcrsTree.cut_perm (List.nodup_cons.mp nodup).2 found
  have meldPerm := meld_perm beats cy
  unfold removeBelow members
  simp only [found, Option.bind_some]
  cases melded : meld beats cy with
  | none =>
    rw [melded, membersOf_none] at meldPerm
    rw [← meldPerm.nil_eq] at cutPerm
    dsimp only
    have single : (y :: (h.children.cut y).elems).Perm h.children.elems := by
      simpa only [List.append_nil] using List.perm_middle.symm.trans cutPerm
    exact (List.Perm.swap _ _ _).trans (List.Perm.cons _ single)
  | some m =>
    rw [melded, membersOf_some] at meldPerm
    dsimp only
    have linkPerm := link_perm beats ⟨h.root, h.children.cut y⟩ m
    simp only [members_mk, List.cons_append] at linkPerm
    refine (linkPerm.cons y).trans ((List.Perm.swap _ _ _).trans (List.Perm.cons _ ?_))
    exact List.perm_middle.symm.trans (((meldPerm.cons y).append_left _).trans cutPerm)

theorem removeBelow_ordered {beats : α → α → Bool} {le : α → α → Prop} (decides : Decides beats le)
    (y : α) {h : Heap α} (ordered : h.Ordered le) : (removeBelow beats y h).Ordered le := by
  have rest : (⟨h.root, h.children.cut y⟩ : Heap α).Ordered le :=
    ⟨fun z onSpine => ordered.1 z (LcrsTree.spine_cut_subset y _ onSpine), ordered.2.cut y⟩
  unfold removeBelow
  cases found : h.children.childrenOf y with
  | none => exact rest
  | some cy =>
    have children := ordered.2.childrenOf found
    cases melded : meld beats cy with
    | none => simpa [melded] using rest
    | some m =>
      simp only [Option.bind_some, melded]
      exact link_ordered decides rest (meld_ordered decides children.2 m melded)

theorem remove_perm (beats : α → α → Bool) {y : α} {h : Heap α} (nodup : h.members.Nodup)
    (member : y ∈ h.members) : (y :: membersOf (remove beats y h)).Perm h.members := by
  unfold remove
  split
  · rename_i atRoot
    subst atRoot
    exact List.Perm.cons _ (meld_perm beats h.children)
  · rename_i notRoot
    have below : y ∈ h.children.elems := by
      rcases List.mem_cons.mp member with same | below
      · exact absurd same.symm notRoot
      · exact below
    exact removeBelow_perm beats nodup below

theorem mem_remove (beats : α → α → Bool) {y : α} {h : Heap α} (nodup : h.members.Nodup)
    (member : y ∈ h.members) {x : α} : x ∈ membersOf (remove beats y h) ↔ x ∈ h.members ∧ x ≠ y := by
  have perm := remove_perm beats nodup member
  have out : y ∉ membersOf (remove beats y h) := (List.nodup_cons.mp (perm.nodup_iff.mpr nodup)).1
  rw [← perm.mem_iff, List.mem_cons]
  constructor
  · intro kept
    exact ⟨Or.inr kept, fun same => out (same ▸ kept)⟩
  · rintro ⟨same | kept, apart⟩
    · exact absurd same apart
    · exact kept

theorem nodup_remove (beats : α → α → Bool) {y : α} {h : Heap α} (nodup : h.members.Nodup)
    (member : y ∈ h.members) : (membersOf (remove beats y h)).Nodup :=
  (List.nodup_cons.mp ((remove_perm beats nodup member).nodup_iff.mpr nodup)).2

theorem remove_ordered {beats : α → α → Bool} {le : α → α → Prop} (decides : Decides beats le)
    (y : α) {h : Heap α} (ordered : h.Ordered le) : ∀ x ∈ remove beats y h, x.Ordered le := by
  unfold remove
  split
  · exact meld_ordered decides ordered.2
  · intro x same
    cases same
    exact removeBelow_ordered decides y ordered

theorem raise_perm (beats : α → α → Bool) (y : α) {h : Heap α} (nodup : h.members.Nodup) :
    (raise beats y h).members.Perm h.members := by
  unfold raise
  split
  · exact List.Perm.refl _
  · cases found : h.children.childrenOf y with
    | none => exact List.Perm.refl _
    | some cy =>
      have cutPerm := LcrsTree.cut_perm (List.nodup_cons.mp nodup).2 found
      refine (link_perm beats _ _).trans ?_
      exact List.Perm.cons _ cutPerm

/-- Raising `y` keeps a heap ordered when only `y` moved in the order, and moved
up: pairs without `y` keep their order, and what `y` was above it still is. -/
theorem raise_ordered {beats : α → α → Bool} {le le' : α → α → Prop} (decides : Decides beats le')
    (y : α) {h : Heap α} (nodup : h.members.Nodup) (ordered : h.Ordered le)
    (kept : ∀ a ∈ h.members, ∀ b ∈ h.members, a ≠ y → b ≠ y → le a b → le' a b)
    (up : ∀ z ∈ h.members, le z y → le' z y) : (raise beats y h).Ordered le' := by
  have rootOut : h.root ∉ h.children.elems := (List.nodup_cons.mp nodup).1
  unfold raise
  split
  · rename_i atRoot
    subst atRoot
    refine ⟨fun z onSpine => up z ?_ (ordered.1 z onSpine), ordered.2.imp_on fun a ha b hb =>
      kept a (List.mem_cons_of_mem _ ha) b (List.mem_cons_of_mem _ hb)
        (fun same => rootOut (same ▸ ha)) (fun same => rootOut (same ▸ hb))⟩
    exact List.mem_cons_of_mem _ (LcrsTree.spine_subset _ onSpine)
  · rename_i notRoot
    cases found : h.children.childrenOf y with
    | none =>
      -- `y` is not in the heap, so no pair of it involves `y`
      have absent : y ∉ h.members := by
        intro member
        rcases List.mem_cons.mp member with atRoot | below
        · exact notRoot atRoot.symm
        · obtain ⟨cy, some⟩ := LcrsTree.childrenOf_isSome below
          rw [found] at some
          cases some
      exact ordered.imp_on fun a ha b hb =>
        kept a ha b hb (fun same => absent (same ▸ ha)) (fun same => absent (same ▸ hb))
    | some cy =>
      have cutPerm := LcrsTree.cut_perm (List.nodup_cons.mp nodup).2 found
      have parts := List.nodup_append.mp (cutPerm.nodup_iff.mpr (List.nodup_cons.mp nodup).2)
      have outChain : y ∉ cy.elems := (List.nodup_cons.mp parts.2.1).1
      have inChain : ∀ a ∈ cy.elems, a ∈ h.members := fun a ha =>
        List.mem_cons_of_mem _ (cutPerm.subset (List.mem_append_right _ (List.mem_cons_of_mem _ ha)))
      have inRest : ∀ a ∈ (⟨h.root, h.children.cut y⟩ : Heap α).members, a ∈ h.members ∧ a ≠ y := by
        intro a ha
        rcases List.mem_cons.mp ha with atRoot | inCut
        · exact ⟨atRoot ▸ List.mem_cons_self, fun same => notRoot (atRoot ▸ same)⟩
        · refine ⟨List.mem_cons_of_mem _ (cutPerm.subset (List.mem_append_left _ inCut)), ?_⟩
          exact fun same => parts.2.2 a inCut y List.mem_cons_self same
      have rest : (⟨h.root, h.children.cut y⟩ : Heap α).Ordered le :=
        ⟨fun z onSpine => ordered.1 z (LcrsTree.spine_cut_subset y _ onSpine), ordered.2.cut y⟩
      have below := ordered.2.childrenOf found
      refine link_ordered decides (rest.imp_on fun a ha b hb =>
        kept a (inRest a ha).1 b (inRest b hb).1 (inRest a ha).2 (inRest b hb).2) ⟨?_, ?_⟩
      · exact fun z onSpine => up z (inChain z (LcrsTree.spine_subset _ onSpine)) (below.1 z onSpine)
      · exact below.2.imp_on fun a ha b hb => kept a (inChain a ha) b (inChain b hb)
          (fun same => outChain (same ▸ ha)) (fun same => outChain (same ▸ hb))

/-- Removing `y` leaves a heap ordered by a new order that agrees with the old
one away from `y`, when the new order decides the melds. -/
theorem remove_ordered_of_kept {beats : α → α → Bool} {le le' : α → α → Prop}
    (decides : Decides beats le') {y : α} {h : Heap α} (nodup : h.members.Nodup)
    (member : y ∈ h.members) (ordered : h.Ordered le)
    (kept : ∀ a ∈ h.members, ∀ b ∈ h.members, a ≠ y → b ≠ y → le a b → le' a b) :
    ∀ x ∈ remove beats y h, x.Ordered le' := by
  -- the heap is ordered by `le'` away from `y`, and `y` leaves it
  have nearOrdered : h.Ordered fun a b => a = y ∨ b = y ∨ le' a b := by
    refine ordered.imp_on fun a ha b hb below => ?_
    by_cases atA : a = y
    · exact Or.inl atA
    by_cases atB : b = y
    · exact Or.inr (Or.inl atB)
    exact Or.inr (Or.inr (kept a ha b hb atA atB below))
  have out := (List.nodup_cons.mp ((remove_perm beats nodup member).nodup_iff.mpr nodup)).1
  intro x found
  rw [Option.mem_def.mp found, membersOf_some] at out
  refine (remove_ordered (decides.mono fun a b below => Or.inr (Or.inr below)) y nearOrdered x
    found).imp_on fun a ha b hb below => ?_
  rcases below with atA | atB | below
  · exact absurd (atA ▸ ha) out
  · exact absurd (atB ▸ hb) out
  · exact below

end Heap

end Xnu
