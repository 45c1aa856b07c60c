import Mathlib

namespace Xnu

/-! A ring buffer over a store of cells `Nat → α` whose first `size` cells are
in use: a copy of a list of cells into the store from a position, the same
copy wrapped at `size`, and the view of `count` cells read from `start`
modulo `size`. A wrapped write placed right after the view, and no longer than
the room left, makes the view grow by exactly the cells written. -/

variable {α : Type*}

/-- The store with `chunk` copied in from `pos` on. -/
def writeAt (buffer : Nat → α) (pos : Nat) (chunk : List α) (i : Nat) : α :=
  if pos ≤ i then (chunk[i - pos]?).getD (buffer i) else buffer i

/-- The `count` cells from `start` on, with no wrap. -/
def readAt (buffer : Nat → α) (start count : Nat) : List α :=
  (List.range count).map fun i => buffer (start + i)

/-- `chunk` copied in from `pos` up to `size`, and the rest of it from 0. -/
def ringWrite (buffer : Nat → α) (size pos : Nat) (chunk : List α) : Nat → α :=
  writeAt (writeAt buffer pos (chunk.take (size - pos))) 0 (chunk.drop (size - pos))

/-- The `count` cells from `start` on, read modulo `size`. -/
def ringRead (buffer : Nat → α) (size start count : Nat) : List α :=
  (List.range count).map fun i => buffer ((start + i) % size)

theorem writeAt_of_lt {buffer : Nat → α} {pos i : Nat} (chunk : List α) (below : i < pos) :
    writeAt buffer pos chunk i = buffer i := by
  simp [writeAt, Nat.not_le.mpr below]

theorem writeAt_of_le {buffer : Nat → α} {pos i : Nat} {chunk : List α} (past : pos + chunk.length ≤ i) :
    writeAt buffer pos chunk i = buffer i := by
  have beyond : chunk[i - pos]? = none := List.getElem?_eq_none (by omega)
  simp [writeAt, beyond]

theorem writeAt_add {buffer : Nat → α} {pos j : Nat} {chunk : List α} (inside : j < chunk.length) :
    writeAt buffer pos chunk (pos + j) = chunk[j] := by
  simp [writeAt, List.getElem?_eq_getElem inside]

@[simp] theorem writeAt_nil (buffer : Nat → α) (pos : Nat) : writeAt buffer pos [] = buffer := by
  funext i
  simp [writeAt]

/-- A copy of one cell is an update of the store. -/
theorem writeAt_singleton (buffer : Nat → α) (pos : Nat) (x : α) : writeAt buffer pos [x] = Function.update buffer pos x := by
  funext i
  by_cases same : i = pos
  · subst same
    simp [writeAt]
  · rw [Function.update_of_ne same]
    unfold writeAt
    split
    · rw [List.getElem?_eq_none (by simp; omega), Option.getD_none]
    · rfl

@[simp] theorem length_readAt (buffer : Nat → α) (start count : Nat) :
    (readAt buffer start count).length = count := by
  simp [readAt]

@[simp] theorem length_ringRead (buffer : Nat → α) (size start count : Nat) :
    (ringRead buffer size start count).length = count := by
  simp [ringRead]

/-- A copy read back from where it was written is the copy. -/
theorem readAt_writeAt (buffer : Nat → α) (pos : Nat) (chunk : List α) :
    readAt (writeAt buffer pos chunk) pos chunk.length = chunk := by
  apply List.ext_getElem (by simp)
  intro j inside _
  simp only [readAt, List.getElem_map, List.getElem_range]
  exact writeAt_add (by simpa using inside)

theorem ringRead_add (buffer : Nat → α) (size start m n : Nat) :
    ringRead buffer size start (m + n) = ringRead buffer size start m ++ ringRead buffer size (start + m) n := by
  simp only [ringRead, List.range_add, List.map_append, List.map_map, Function.comp_def, Nat.add_assoc]

theorem readAt_add (buffer : Nat → α) (start m n : Nat) :
    readAt buffer start (m + n) = readAt buffer start m ++ readAt buffer (start + m) n := by
  simp only [readAt, List.range_add, List.map_append, List.map_map, Function.comp_def, Nat.add_assoc]

theorem ringRead_mod (buffer : Nat → α) (size start count : Nat) :
    ringRead buffer size (start % size) count = ringRead buffer size start count := by
  simp only [ringRead, Nat.mod_add_mod]

/-- A view with its first `k` cells dropped is the view from `k` cells on. -/
theorem ringRead_drop (buffer : Nat → α) (size start : Nat) {count k : Nat} (le : k ≤ count) :
    (ringRead buffer size start count).drop k = ringRead buffer size (start + k) (count - k) := by
  rw [show ringRead buffer size start count = ringRead buffer size start (k + (count - k)) by rw [Nat.add_sub_cancel' le],
    ringRead_add, List.drop_left' (length_ringRead _ _ _ _)]

theorem ringRead_take (buffer : Nat → α) (size start : Nat) {count k : Nat} (le : k ≤ count) :
    (ringRead buffer size start count).take k = ringRead buffer size start k := by
  rw [show ringRead buffer size start count = ringRead buffer size start (k + (count - k)) by rw [Nat.add_sub_cancel' le],
    ringRead_add, List.take_left' (length_ringRead _ _ _ _)]

/-- An index less than two rounds past the start wraps at most once. -/
theorem mod_eq_ite_of_lt_two_mul {a n : Nat} (lt : a < 2 * n) : a % n = if a < n then a else a - n := by
  split
  · exact Nat.mod_eq_of_lt ‹_›
  · rw [Nat.mod_eq_sub_mod (by omega), Nat.mod_eq_of_lt (by omega)]

/-- A view that does not reach `size` is read with no wrap. -/
theorem ringRead_of_le {buffer : Nat → α} {size start count : Nat} (within : start + count ≤ size) :
    ringRead buffer size start count = readAt buffer start count := by
  apply List.map_congr_left
  intro i member
  rw [Nat.mod_eq_of_lt (by simp at member; omega)]

theorem ringRead_congr {buffer buffer' : Nat → α} {size size' start count : Nat}
    (same : ∀ i < count, buffer' ((start + i) % size') = buffer ((start + i) % size)) :
    ringRead buffer' size' start count = ringRead buffer size start count := by
  apply List.map_congr_left
  intro i member
  exact same i (by simpa using member)

/-- A copy of cells `[s, s + n)` of `src` placed at `pos`. -/
theorem writeAt_readAt {buffer src : Nat → α} {pos s n i : Nat} (inside : pos ≤ i ∧ i < pos + n) :
    writeAt buffer pos (readAt src s n) i = src (s + (i - pos)) := by
  have at_i : i = pos + (i - pos) := by omega
  rw [at_i, writeAt_add (by simp; omega)]
  simp [readAt]

/-- A wrapped write from `size` starts at 0. -/
theorem ringWrite_size (buffer : Nat → α) {size : Nat} {chunk : List α} (fits : chunk.length ≤ size) :
    ringWrite buffer size size chunk = ringWrite buffer size 0 chunk := by
  simp [ringWrite, List.take_of_length_le fits, List.drop_eq_nil_of_le fits]

/-- A write that does not reach `size` is not wrapped. -/
theorem ringWrite_of_le (buffer : Nat → α) {size pos : Nat} {chunk : List α} (within : pos + chunk.length ≤ size) :
    ringWrite buffer size pos chunk = writeAt buffer pos chunk := by
  simp [ringWrite, List.take_of_length_le (show chunk.length ≤ size - pos by omega),
    List.drop_eq_nil_of_le (show chunk.length ≤ size - pos by omega)]

/-- The cell `j` places after `pos` holds the `j`-th cell of a wrapped copy
from `pos`, or what it held before past the copy. -/
theorem ringWrite_at {buffer : Nat → α} {size pos j : Nat} {chunk : List α} (start : pos ≤ size)
    (fits : chunk.length ≤ size) (hj : j < size) :
    ringWrite buffer size pos chunk ((pos + j) % size) = (chunk[j]?).getD (buffer ((pos + j) % size)) := by
  unfold ringWrite
  by_cases wraps : size ≤ pos + j
  · -- the cell lies in the part copied from 0
    have at0 : (pos + j) % size = pos + j - size := by
      rw [Nat.mod_eq_sub_mod wraps, Nat.mod_eq_of_lt (by omega)]
    have early : pos + j - size < pos := by omega
    rw [at0]
    simp only [writeAt, Nat.zero_le, if_true, Nat.sub_zero, List.getElem?_drop, Nat.not_le.mpr early,
      if_false]
    rw [show size - pos + (pos + j - size) = j by omega]
  · -- the cell lies in the part copied from `pos`
    have atPos : (pos + j) % size = pos + j := Nat.mod_eq_of_lt (by omega)
    have second : (chunk.drop (size - pos))[pos + j]? = none := List.getElem?_eq_none (by simp; omega)
    rw [atPos]
    simp only [writeAt, Nat.zero_le, if_true, Nat.sub_zero, second, Option.getD_none,
      Nat.le_add_right, Nat.add_sub_cancel_left, List.getElem?_take]
    rw [if_pos (by omega)]

/-- A wrapped write right after the view, within the room left, extends the
view by the cells written. -/
theorem ringRead_ringWrite {buffer : Nat → α} {size start count : Nat} {chunk : List α}
    (positive : 0 < size) (fits : count + chunk.length ≤ size) :
    ringRead (ringWrite buffer size ((start + count) % size) chunk) size start (count + chunk.length) =
      ringRead buffer size start count ++ chunk := by
  have pos_le : (start + count) % size ≤ size := (Nat.mod_lt _ positive).le
  rw [ringRead_add]
  congr 1
  · -- the old cells lie `size - count + i` places after the write position
    apply ringRead_congr
    intro i below
    have shift : (start + i) % size = ((start + count) % size + (size - count + i)) % size := by
      rw [Nat.mod_add_mod, show start + count + (size - count + i) = start + i + size by omega,
        Nat.add_mod_right]
    have untouched : chunk[size - count + i]? = none := List.getElem?_eq_none (by omega)
    rw [shift, ringWrite_at pos_le (by omega) (by omega), untouched, Option.getD_none]
  · apply List.ext_getElem (by simp)
    intro j inside _
    simp only [length_ringRead] at inside
    simp only [ringRead, List.getElem_map, List.getElem_range]
    have shift : (start + count + j) % size = ((start + count) % size + j) % size :=
      (Nat.mod_add_mod _ _ _).symm
    rw [shift, ringWrite_at pos_le (by omega) (by omega), List.getElem?_eq_getElem inside, Option.getD_some]

end Xnu
