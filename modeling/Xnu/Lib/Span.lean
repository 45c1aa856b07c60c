import Mathlib

namespace Xnu

/-! Half-open spans `[start, stop)` of a linear order. Two spans that overlap
or meet have their hull as union, and a span kept apart from both is apart
from the hull. -/

/-- The span `[start, stop)`. -/
structure Span (α : Type) where
  start : α
  stop : α
deriving DecidableEq, Repr

namespace Span

variable {α : Type} [LinearOrder α] {a b c : Span α} {x : α}

def Contains (a : Span α) (x : α) : Prop := a.start ≤ x ∧ x < a.stop

/-- `a` lies inside `b`. -/
def Within (a b : Span α) : Prop := b.start ≤ a.start ∧ a.stop ≤ b.stop

/-- `a` and `b` overlap or meet end to start. -/
def Touches (a b : Span α) : Prop := a.start ≤ b.stop ∧ b.start ≤ a.stop

/-- At least one point lies between `a` and `b`. -/
def Apart (a b : Span α) : Prop := a.stop < b.start ∨ b.stop < a.start

instance (a : Span α) (x : α) : Decidable (a.Contains x) := inferInstanceAs (Decidable (_ ∧ _))

instance (a b : Span α) : Decidable (a.Touches b) := inferInstanceAs (Decidable (_ ∧ _))

/-- The least span holding `a` and `b`. -/
def hull (a b : Span α) : Span α := ⟨min a.start b.start, max a.stop b.stop⟩

theorem apart_iff_not_touches : a.Apart b ↔ ¬a.Touches b := by
  simp only [Apart, Touches, not_and_or, not_le]
  exact Or.comm

theorem Apart.symm (apart : a.Apart b) : b.Apart a := Or.symm apart

theorem Within.refl (a : Span α) : a.Within a := ⟨le_refl _, le_refl _⟩

theorem Within.trans (inner : a.Within b) (outer : b.Within c) : a.Within c :=
  ⟨outer.1.trans inner.1, inner.2.trans outer.2⟩

theorem Within.contains (within : a.Within b) (holds : a.Contains x) : b.Contains x :=
  ⟨within.1.trans holds.1, lt_of_lt_of_le holds.2 within.2⟩

theorem within_hull_left (a b : Span α) : a.Within (a.hull b) := ⟨min_le_left _ _, le_max_left _ _⟩

theorem within_hull_right (a b : Span α) : b.Within (a.hull b) := ⟨min_le_right _ _, le_max_right _ _⟩

/-- The hull of two spans that touch holds no point outside them. -/
theorem contains_hull (touch : a.Touches b) : (a.hull b).Contains x ↔ a.Contains x ∨ b.Contains x := by
  constructor
  · intro holds
    simp only [Contains, hull, Touches, min_le_iff, lt_max_iff] at holds touch ⊢
    grind
  · rintro (inA | inB)
    · exact (within_hull_left a b).contains inA
    · exact (within_hull_right a b).contains inB

/-- A span apart from two spans that touch is apart from their hull. -/
theorem Apart.hull (proper : c.start ≤ c.stop) (fromA : c.Apart a) (fromB : c.Apart b)
    (touch : a.Touches b) : c.Apart (a.hull b) := by
  simp only [Apart, Span.hull, Touches, lt_min_iff, max_lt_iff] at fromA fromB touch ⊢
  grind

end Span

end Xnu
