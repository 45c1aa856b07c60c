import Mathlib

namespace Xnu

/-! Scans for the greatest and the least position of a predicate on `Nat`
within a range. A scan over a range is the scan over its upper part, or else
over its lower part, so a scan of a bitmap is assembled from scans of its
words. -/

/-- The greatest `i < n` with `p i`. -/
def greatestBelow (p : Nat → Bool) : Nat → Option Nat
  | 0 => none
  | n + 1 => if p n then some n else greatestBelow p n

/-- The least `i` with `lo ≤ i < lo + n` and `p i`. -/
def leastFrom (p : Nat → Bool) (lo : Nat) : Nat → Option Nat
  | 0 => none
  | n + 1 => if p lo then some lo else leastFrom p (lo + 1) n

variable {p q : Nat → Bool}

section Greatest

theorem greatestBelow_eq_none {n : Nat} : greatestBelow p n = none ↔ ∀ j < n, p j = false := by
  induction n with
  | zero => simp [greatestBelow]
  | succ n ih =>
    by_cases top : p n
    · simp only [greatestBelow, top, if_true, reduceCtorEq, false_iff, not_forall]
      exact ⟨n, Nat.lt_succ_self n, by simp [top]⟩
    · simp only [greatestBelow, top, Bool.false_eq_true, if_false, ih]
      constructor
      · intro below j inside
        rcases Nat.lt_succ_iff_lt_or_eq.mp inside with lower | rfl
        · exact below j lower
        · simpa using top
      · exact fun below j inside => below j (Nat.lt_succ_of_lt inside)

theorem greatestBelow_eq_some {n i : Nat} :
    greatestBelow p n = some i ↔ i < n ∧ p i ∧ ∀ j, i < j → j < n → p j = false := by
  induction n with
  | zero => simp [greatestBelow]
  | succ n ih =>
    by_cases top : p n
    · simp only [greatestBelow, top, if_true, Option.some.injEq]
      constructor
      · rintro rfl
        exact ⟨Nat.lt_succ_self _, top, fun j above inside => absurd inside (by omega)⟩
      · rintro ⟨_, _, above⟩
        by_contra differ
        have := above n (by omega) (Nat.lt_succ_self n)
        simp [top] at this
    · simp only [greatestBelow, top, Bool.false_eq_true, if_false, ih]
      constructor
      · rintro ⟨inside, set, above⟩
        refine ⟨Nat.lt_succ_of_lt inside, set, fun j over' inside' => ?_⟩
        rcases Nat.lt_succ_iff_lt_or_eq.mp inside' with lower | rfl
        · exact above j over' lower
        · simpa using top
      · rintro ⟨inside, set, above⟩
        have ne : i ≠ n := by rintro rfl; simp [top] at set
        exact ⟨by omega, set, fun j over' inside' => above j over' (Nat.lt_succ_of_lt inside')⟩

theorem greatestBelow_congr {n : Nat} (same : ∀ j < n, p j = q j) : greatestBelow p n = greatestBelow q n := by
  induction n with
  | zero => rfl
  | succ n ih =>
    simp only [greatestBelow, same n (Nat.lt_succ_self n), ih fun j inside => same j (Nat.lt_succ_of_lt inside)]

/-- Above the greatest position there is nothing to find. -/
theorem greatestBelow_of_le {m n : Nat} (le : m ≤ n) (clear : ∀ j, m ≤ j → j < n → p j = false) :
    greatestBelow p n = greatestBelow p m := by
  induction n with
  | zero => rw [Nat.le_zero.mp le]
  | succ n ih =>
    rcases Nat.lt_succ_iff_lt_or_eq.mp (Nat.lt_succ_of_le le) with lower | rfl
    · rw [greatestBelow, clear n (by omega) (Nat.lt_succ_self n), if_neg Bool.false_ne_true]
      exact ih (by omega) fun j low high => clear j low (Nat.lt_succ_of_lt high)
    · rfl

/-- The scan below `m + k` finds in `[m, m + k)` first, else below `m`. -/
theorem greatestBelow_add (m k : Nat) :
    greatestBelow p (m + k) = ((greatestBelow (fun j => p (m + j)) k).map (m + ·)).or (greatestBelow p m) := by
  induction k with
  | zero => simp [greatestBelow]
  | succ k ih =>
    rw [← Nat.add_assoc, greatestBelow, greatestBelow]
    by_cases top : p (m + k)
    · simp [top]
    · simp only [top, Bool.false_eq_true, if_false, ih]

end Greatest

section Least

theorem leastFrom_eq_none {lo n : Nat} : leastFrom p lo n = none ↔ ∀ j, lo ≤ j → j < lo + n → p j = false := by
  induction n generalizing lo with
  | zero => simp only [leastFrom, Nat.add_zero, true_iff]; intro j low high; omega
  | succ n ih =>
    by_cases first : p lo
    · simp only [leastFrom, first, if_true, reduceCtorEq, false_iff, not_forall]
      exact ⟨lo, le_refl lo, by omega, by simp [first]⟩
    · simp only [leastFrom, first, Bool.false_eq_true, if_false, ih]
      constructor
      · intro above j low high
        rcases Nat.eq_or_lt_of_le low with rfl | higher
        · simpa using first
        · exact above j higher (by omega)
      · exact fun above j low high => above j (by omega) (by omega)

theorem leastFrom_eq_some {lo n i : Nat} :
    leastFrom p lo n = some i ↔ lo ≤ i ∧ i < lo + n ∧ p i ∧ ∀ j, lo ≤ j → j < i → p j = false := by
  induction n generalizing lo with
  | zero => simp only [leastFrom, reduceCtorEq, Nat.add_zero, false_iff]; omega
  | succ n ih =>
    by_cases first : p lo
    · simp only [leastFrom, first, if_true, Option.some.injEq]
      constructor
      · rintro rfl
        exact ⟨le_refl _, by omega, first, fun j low high => absurd high (by omega)⟩
      · rintro ⟨low, _, _, below⟩
        by_contra differ
        have := below lo (le_refl lo) (by omega)
        simp [first] at this
    · simp only [leastFrom, first, Bool.false_eq_true, if_false, ih]
      constructor
      · rintro ⟨low, high, set, below⟩
        refine ⟨by omega, by omega, set, fun j low' high' => ?_⟩
        rcases Nat.eq_or_lt_of_le low' with rfl | higher
        · simpa using first
        · exact below j higher high'
      · rintro ⟨low, high, set, below⟩
        have ne : i ≠ lo := by rintro rfl; simp [first] at set
        exact ⟨by omega, by omega, set, fun j low' high' => below j (by omega) high'⟩

theorem leastFrom_congr {lo n : Nat} (same : ∀ j, lo ≤ j → j < lo + n → p j = q j) :
    leastFrom p lo n = leastFrom q lo n := by
  induction n generalizing lo with
  | zero => rfl
  | succ n ih =>
    have rest := @ih (lo + 1) fun j low high => same j (by omega) (by omega)
    simp only [leastFrom, same lo (le_refl lo) (by omega), rest]

/-- The scan of `[lo, lo + m + k)` finds in `[lo, lo + m)` first, else in the rest. -/
theorem leastFrom_add (lo m k : Nat) : leastFrom p lo (m + k) = (leastFrom p lo m).or (leastFrom p (lo + m) k) := by
  induction m generalizing lo with
  | zero => simp [leastFrom]
  | succ m ih =>
    rw [Nat.add_right_comm, leastFrom, leastFrom]
    by_cases first : p lo
    · simp [first]
    · simp only [first, Bool.false_eq_true, if_false, ih, Nat.add_assoc, Nat.add_comm 1 m]

/-- Past the last position there is nothing to find. -/
theorem leastFrom_of_le {lo m n : Nat} (le : m ≤ n) (clear : ∀ j, lo + m ≤ j → j < lo + n → p j = false) :
    leastFrom p lo n = leastFrom p lo m := by
  obtain ⟨k, rfl⟩ := Nat.exists_eq_add_of_le le
  rw [leastFrom_add, leastFrom_eq_none.mpr fun j low high => clear j low (by omega), Option.or_none]

/-- Below the first position there is nothing to find. -/
theorem leastFrom_of_clear {lo m k : Nat} (clear : ∀ j, lo ≤ j → j < lo + m → p j = false) :
    leastFrom p lo (m + k) = leastFrom p (lo + m) k := by
  rw [leastFrom_add, leastFrom_eq_none.mpr clear, Option.none_or]

/-- A scan from `m + lo` is the scan of the predicate moved down by `m`, moved back up. -/
theorem leastFrom_add_base (m lo n : Nat) :
    leastFrom p (m + lo) n = (leastFrom (fun j => p (m + j)) lo n).map (m + ·) := by
  induction n generalizing lo with
  | zero => rfl
  | succ n ih =>
    rw [leastFrom, leastFrom, Nat.add_assoc, ih (lo + 1)]
    by_cases first : p (m + lo)
    · simp [first]
    · simp only [first, Bool.false_eq_true, if_false]

/-- `List.find?` over `[0, n)` is the least position. -/
theorem find?_range_eq_leastFrom (n : Nat) : (List.range n).find? p = leastFrom p 0 n := by
  cases found : leastFrom p 0 n with
  | none =>
    rw [List.find?_eq_none]
    intro j member
    have := (leastFrom_eq_none.mp found) j (Nat.zero_le j) (by simpa using List.mem_range.mp member)
    simp [this]
  | some i =>
    obtain ⟨-, inside, set, below⟩ := leastFrom_eq_some.mp found
    rw [List.find?_range_eq_some]
    exact ⟨set, List.mem_range.mpr (by omega), fun j lower => by simp [below j (Nat.zero_le j) lower]⟩

end Least

end Xnu
