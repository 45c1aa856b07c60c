import Mathlib

namespace Xnu

/-! Three-way comparators that return an integer, in the convention of the
kernel's `compare` callbacks: `compare a b > 0` says that `b` ranks above `a`.
A heap of either direction is ordered by rank. -/

variable {α β : Type} [LinearOrder β]

/-- `compare` follows the order of `rank`: positive exactly when the second
argument ranks above the first, and zero only between equal ranks. -/
structure CompareSound (compare : α → α → Int) (rank : α → β) : Prop where
  pos_iff : ∀ a b, 0 < compare a b ↔ rank a < rank b
  eq_of_zero : ∀ a b, compare a b = 0 → rank a = rank b

/-- `c` may sit below `p`: a max heap keeps larger ranks above, a min heap
smaller ones. -/
def RankLe (maxHeap : Bool) (rank : α → β) (c p : α) : Prop :=
  if maxHeap then rank c ≤ rank p else rank p ≤ rank c

/-- The same read through the comparator: `c` compares no higher than `p` in a
max heap and no lower in a min heap. -/
def ChildFits (maxHeap : Bool) (compare : α → α → Int) (c p : α) : Prop :=
  if maxHeap then ¬ 0 < compare p c else ¬ 0 < compare c p

instance (maxHeap : Bool) (rank : α → β) (c p : α) : Decidable (RankLe maxHeap rank c p) :=
  inferInstanceAs (Decidable (if maxHeap then rank c ≤ rank p else rank p ≤ rank c))

instance (maxHeap : Bool) (compare : α → α → Int) (c p : α) :
    Decidable (ChildFits maxHeap compare c p) :=
  inferInstanceAs (Decidable (if maxHeap then ¬ 0 < compare p c else ¬ 0 < compare c p))

instance (maxHeap : Bool) (rank : α → β) : IsTrans α (RankLe maxHeap rank) :=
  ⟨fun a b c ab bc => by
    cases maxHeap
    · simp only [RankLe, Bool.false_eq_true, if_false] at ab bc ⊢
      exact bc.trans ab
    · simp only [RankLe, if_true] at ab bc ⊢
      exact ab.trans bc⟩

instance (maxHeap : Bool) (rank : α → β) : Std.Refl (RankLe maxHeap rank) :=
  ⟨fun a => by cases maxHeap <;> exact le_refl (rank a)⟩

theorem RankLe.of_eq {maxHeap : Bool} {rank rank' : α → β} {c p : α}
    (atC : rank' c = rank c) (atP : rank' p = rank p) (below : RankLe maxHeap rank c p) :
    RankLe maxHeap rank' c p := by
  unfold RankLe
  rw [atC, atP]
  exact below

/-- A node that ranked below `y` still does once `y` has moved up in the order. -/
theorem RankLe.of_raised {maxHeap : Bool} {rank rank' : α → β} {z y : α}
    (atZ : rank' z = rank z) (raised : RankLe maxHeap id (rank y) (rank' y))
    (below : RankLe maxHeap rank z y) : RankLe maxHeap rank' z y := by
  cases maxHeap
  · simp only [RankLe, id, Bool.false_eq_true, if_false] at raised below ⊢
    rw [atZ]
    exact raised.trans below
  · simp only [RankLe, id, if_true] at raised below ⊢
    rw [atZ]
    exact below.trans raised

theorem CompareSound.childFits_iff {compare : α → α → Int} {rank : α → β}
    (sound : CompareSound compare rank) (maxHeap : Bool) (c p : α) :
    ChildFits maxHeap compare c p ↔ RankLe maxHeap rank c p := by
  cases maxHeap
  · simp only [ChildFits, RankLe, Bool.false_eq_true, if_false, sound.pos_iff, not_lt]
  · simp only [ChildFits, RankLe, if_true, sound.pos_iff, not_lt]

/-- A comparator that follows one rank follows any rank that orders the
elements the same way. -/
theorem CompareSound.of_rank {γ : Type} [LinearOrder γ] {compare : α → α → Int} {rank : α → β}
    {rank' : α → γ} (sound : CompareSound compare rank) (same : ∀ a b, rank a < rank b ↔ rank' a < rank' b) :
    CompareSound compare rank' where
  pos_iff a b := (sound.pos_iff a b).trans (same a b)
  eq_of_zero a b zero := by
    have equal := sound.eq_of_zero a b zero
    apply le_antisymm
    · exact not_lt.mp fun above => ((same b a).mpr above).ne' equal
    · exact not_lt.mp fun below => ((same a b).mpr below).ne equal

/-- "`b` ranks above `a`" read off a sound comparator is a strict weak order:
two elements it cannot tell apart are those of equal rank. -/
theorem CompareSound.isStrictWeakOrder {compare : α → α → Int} {rank : α → β}
    (sound : CompareSound compare rank) : IsStrictWeakOrder α fun a b => 0 < compare a b where
  irrefl a above := lt_irrefl (rank a) ((sound.pos_iff a a).mp above)
  trans a b c ab bc := (sound.pos_iff a c).mpr (((sound.pos_iff a b).mp ab).trans ((sound.pos_iff b c).mp bc))
  incomp_trans a b c ab bc := by
    simp only [sound.pos_iff, not_lt] at ab bc ⊢
    exact ⟨bc.1.trans ab.1, ab.2.trans bc.2⟩

end Xnu
