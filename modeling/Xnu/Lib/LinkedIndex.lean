import Mathlib

namespace Xnu

/-! Lists threaded through an array by index, with slot `0` as the
terminator: `link i` is the successor stored in slot `i` (`none` past the
array). A chain is read off the links; a segment is a chain cut short at a
given node. -/

/-- From slot `i` the links visit the slots `l` in order and then reach `0`;
`i` itself is not in `l`. -/
inductive ChainFrom (link : Nat → Option Nat) : Nat → List Nat → Prop
  | last {i : Nat} : link i = some 0 → ChainFrom link i []
  | next {i j : Nat} {l : List Nat} : link i = some j → j ≠ 0 → ChainFrom link j l →
      ChainFrom link i (j :: l)

/-- From slot `i` the links visit the slots `l` in order and stop at `p`, the
last of `i :: l`. -/
inductive Segment (link : Nat → Option Nat) : Nat → List Nat → Nat → Prop
  | refl {i : Nat} : Segment link i [] i
  | next {i j p : Nat} {l : List Nat} : link i = some j → j ≠ 0 → Segment link j l p →
      Segment link i (j :: l) p

namespace ChainFrom

variable {link link' : Nat → Option Nat}

theorem unique {i : Nat} {l₁ l₂ : List Nat} (first : ChainFrom link i l₁)
    (second : ChainFrom link i l₂) : l₁ = l₂ := by
  induction first generalizing l₂ with
  | last stop =>
    cases second with
    | last _ => rfl
    | next step nonzero _ =>
      rw [stop, Option.some.injEq] at step
      exact absurd step.symm nonzero
  | next step nonzero _ ih =>
    cases second with
    | last stop =>
      rw [stop, Option.some.injEq] at step
      exact absurd step.symm nonzero
    | next step' _ rest' =>
      rw [step, Option.some.injEq] at step'
      subst step'
      rw [ih rest']

theorem zero_not_mem {i : Nat} {l : List Nat} (chain : ChainFrom link i l) : 0 ∉ l := by
  induction chain with
  | last _ => simp
  | next _ nonzero _ ih =>
    simp only [List.mem_cons, not_or]
    exact ⟨Ne.symm nonzero, ih⟩

theorem suffix {i j : Nat} {pre post : List Nat} (chain : ChainFrom link i (pre ++ j :: post)) :
    ChainFrom link j post := by
  induction pre generalizing i with
  | nil =>
    cases chain with
    | next _ _ rest => exact rest
  | cons a pre ih =>
    cases chain with
    | next _ _ rest => exact ih rest

/-- The chain does not come back to its start: from there it would visit a
strictly shorter list. -/
theorem start_not_mem {i : Nat} {l : List Nat} (chain : ChainFrom link i l) : i ∉ l := by
  intro mem
  obtain ⟨pre, post, split⟩ := List.mem_iff_append.mp mem
  rw [split] at chain
  have same := chain.unique chain.suffix
  have len := congrArg List.length same
  simp only [List.length_append, List.length_cons] at len
  omega

theorem nodup {i : Nat} {l : List Nat} (chain : ChainFrom link i l) : l.Nodup := by
  induction chain with
  | last _ => exact List.nodup_nil
  | next _ _ rest ih => exact List.nodup_cons.mpr ⟨rest.start_not_mem, ih⟩

theorem cons_nodup {i : Nat} {l : List Nat} (chain : ChainFrom link i l) : (i :: l).Nodup :=
  List.nodup_cons.mpr ⟨chain.start_not_mem, chain.nodup⟩

/-- A chain through exactly the slots `[a, b)` has `b - a` nodes. -/
theorem length_eq {i a b : Nat} {l : List Nat} (chain : ChainFrom link i l)
    (members : ∀ k, k ∈ l ↔ a ≤ k ∧ k < b) : l.length = b - a := by
  have perm : l.Perm (List.range' a (b - a)) := by
    rw [List.perm_ext_iff_of_nodup chain.nodup List.nodup_range']
    intro k
    rw [members, List.mem_range'_1]
    omega
  rw [perm.length_eq, List.length_range']

/-- Only the links of the start and of the visited slots matter. -/
theorem frame {i : Nat} {l : List Nat} (chain : ChainFrom link i l) (start : link' i = link i)
    (same : ∀ k ∈ l, link' k = link k) : ChainFrom link' i l := by
  induction chain with
  | last stop => exact .last (start.trans stop)
  | @next i j l step nonzero _ ih =>
    exact .next (start.trans step) nonzero
      (ih (same j List.mem_cons_self) fun k mem => same k (List.mem_cons_of_mem j mem))

/-- A chain read from `j` is read from any `i` whose new link is `j`'s. -/
theorem restart {i j : Nat} {l : List Nat} (chain : ChainFrom link j l) (start : link' i = link j)
    (same : ∀ k ∈ l, link' k = link k) : ChainFrom link' i l := by
  cases chain with
  | last stop => exact .last (start.trans stop)
  | @next _ k l step nonzero rest =>
    exact .next (start.trans step) nonzero
      (rest.frame (same k List.mem_cons_self) fun m mem => same m (List.mem_cons_of_mem k mem))

/-- Unlinking the first slot: the start takes over that slot's link. -/
theorem skip {i j : Nat} {l : List Nat} (chain : ChainFrom link i (j :: l))
    (start : link' i = link j) (same : ∀ k ∈ l, link' k = link k) : ChainFrom link' i l := by
  cases chain with
  | next _ _ rest => exact rest.restart start same

/-- Linking a slot `x` in first: `x` takes over the start's link. -/
theorem push {i x : Nat} {l : List Nat} (chain : ChainFrom link i l) (nonzero : x ≠ 0)
    (start : link' i = some x) (linked : link' x = link i) (same : ∀ k ∈ l, link' k = link k) :
    ChainFrom link' i (x :: l) :=
  .next start nonzero (chain.restart linked same)

theorem mem_lt {i : Nat} {l : List Nat} (chain : ChainFrom link i l) {size : Nat}
    (inside : ∀ k, k < size ↔ (link k).isSome) : ∀ k ∈ l, k < size := by
  induction chain with
  | last _ => simp
  | @next i j l step nonzero rest ih =>
    intro k mem
    rcases List.mem_cons.mp mem with rfl | later
    · cases rest with
      | last stop => exact (inside k).mpr (by simp [stop])
      | next step' _ _ => exact (inside k).mpr (by simp [step'])
    · exact ih k later

end ChainFrom

namespace Segment

variable {link link' : Nat → Option Nat}

/-- A segment followed by a chain from its end is a chain. -/
theorem chain {i p : Nat} {l₁ l₂ : List Nat} (segment : Segment link i l₁ p)
    (rest : ChainFrom link p l₂) : ChainFrom link i (l₁ ++ l₂) := by
  induction segment with
  | refl => exact rest
  | next step nonzero _ ih => exact .next step nonzero (ih rest)

theorem frame {i p : Nat} {l : List Nat} (segment : Segment link i l p)
    (same : ∀ k ∈ (i :: l).dropLast, link' k = link k) : Segment link' i l p := by
  induction segment with
  | refl => exact .refl
  | @next i j p l step nonzero _ ih =>
    have atStart : link' i = link i := same i (by simp)
    refine .next (atStart.trans step) nonzero (ih fun k mem => same k ?_)
    rw [List.dropLast_cons_of_ne_nil (List.cons_ne_nil j l)]
    exact List.mem_cons_of_mem i mem

theorem end_mem {i p : Nat} {l : List Nat} (segment : Segment link i l p) : p ∈ i :: l := by
  induction segment with
  | refl => exact List.mem_cons_self
  | next _ _ _ ih => exact List.mem_cons_of_mem _ ih

theorem end_unique {i p q : Nat} {l : List Nat} (first : Segment link i l p)
    (second : Segment link i l q) : p = q := by
  induction first with
  | refl => cases second; rfl
  | next _ _ _ ih =>
    cases second with
    | next _ _ rest => exact ih rest

/-- On a list without repeats the end of a segment is only its last node. -/
theorem end_not_mem_dropLast {i p : Nat} {l : List Nat} (segment : Segment link i l p)
    (nodup : (i :: l).Nodup) : p ∉ (i :: l).dropLast := by
  induction segment with
  | refl => simp
  | @next i j p l _ _ rest ih =>
    rw [List.dropLast_cons_of_ne_nil (List.cons_ne_nil j l), List.mem_cons, not_or]
    obtain ⟨fresh, nodupRest⟩ := List.nodup_cons.mp nodup
    exact ⟨fun same => fresh (same ▸ rest.end_mem), ih nodupRest⟩

end Segment

/-- A chain splits at any point into a segment and the chain after it. -/
theorem ChainFrom.split {link : Nat → Option Nat} {i : Nat} {l₁ l₂ : List Nat}
    (chain : ChainFrom link i (l₁ ++ l₂)) : ∃ p, Segment link i l₁ p ∧ ChainFrom link p l₂ := by
  induction l₁ generalizing i with
  | nil => exact ⟨i, .refl, chain⟩
  | cons a l₁ ih =>
    cases chain with
    | next step nonzero rest =>
      obtain ⟨p, segment, after⟩ := ih rest
      exact ⟨p, .next step nonzero segment, after⟩

/-- Unlinking `x` from the middle of a chain: its predecessor `p` takes over
`x`'s link, and no other node's link changes. -/
theorem ChainFrom.unlink {link link' : Nat → Option Nat} {i x p : Nat} {pre post : List Nat}
    (chain : ChainFrom link i (pre ++ x :: post)) (segment : Segment link i pre p)
    (bypass : link' p = link x) (same : ∀ k ∈ i :: (pre ++ post), k ≠ p → link' k = link k) :
    ChainFrom link' i (pre ++ post) := by
  have nodup := chain.cons_nodup
  obtain ⟨q, segment', rest⟩ := chain.split
  cases segment.end_unique segment'
  have nodupPre : (i :: pre).Nodup := nodup.sublist (by simp)
  have endFresh := segment.end_not_mem_dropLast nodupPre
  have segmentNew : Segment link' i pre p := by
    refine segment.frame fun k mem => same k ?_ fun eq => endFresh (eq ▸ mem)
    have inPre : k ∈ i :: pre := List.dropLast_subset _ mem
    simp only [List.mem_cons, List.mem_append] at inPre ⊢
    tauto
  cases rest with
  | next _ _ after =>
    refine segmentNew.chain (after.restart bypass fun k mem => same k (by simp [mem]) ?_)
    rintro rfl
    have endIn := segment.end_mem
    simp only [List.nodup_cons, List.nodup_append, List.mem_append] at nodup
    rcases List.mem_cons.mp endIn with rfl | inPre
    · exact nodup.1 (by simp [mem])
    · exact nodup.2.2.2 k inPre k (List.mem_cons_of_mem x mem) rfl

end Xnu
