import Mathlib

namespace Xnu

/-! Byte buffers as lists of octets, big-endian reads out of them, and the
32-bit unsigned comparisons that guard such reads. -/

/-- Four octets assembled most significant first. -/
def beWord (b0 b1 b2 b3 : UInt8) : UInt32 :=
  (b0.toUInt32 <<< 24) ||| (b1.toUInt32 <<< 16) ||| (b2.toUInt32 <<< 8) ||| b3.toUInt32

/-- Two octets assembled most significant first. -/
def beHalf (b0 b1 : UInt8) : UInt16 :=
  (b0.toUInt16 <<< 8) ||| b1.toUInt16

/-- The big-endian word whose first octet is at offset `i`; `none` when one of
its octets lies past the end of the buffer. -/
def readWord (buf : List UInt8) (i : Nat) : Option UInt32 := do
  let b0 ← buf[i]?
  let b1 ← buf[i + 1]?
  let b2 ← buf[i + 2]?
  let b3 ← buf[i + 3]?
  pure (beWord b0 b1 b2 b3)

/-- The big-endian half-word whose first octet is at offset `i`. -/
def readHalf (buf : List UInt8) (i : Nat) : Option UInt16 := do
  let b0 ← buf[i]?
  let b1 ← buf[i + 1]?
  pure (beHalf b0 b1)

theorem readWord_eq_some {buf : List UInt8} {i : Nat} (h : i + 4 ≤ buf.length) :
    readWord buf i = some (beWord buf[i] buf[i + 1] buf[i + 2] buf[i + 3]) := by
  simp [readWord, List.getElem?_eq_getElem (show i < buf.length by omega),
    List.getElem?_eq_getElem (show i + 1 < buf.length by omega),
    List.getElem?_eq_getElem (show i + 2 < buf.length by omega),
    List.getElem?_eq_getElem (show i + 3 < buf.length by omega)]

theorem readWord_eq_none {buf : List UInt8} {i : Nat} (h : buf.length < i + 4) :
    readWord buf i = none := by
  have last : buf[i + 3]? = none := List.getElem?_eq_none (by omega)
  simp only [readWord, last]
  cases buf[i]? <;> cases buf[i + 1]? <;> cases buf[i + 2]? <;> rfl

theorem readHalf_eq_some {buf : List UInt8} {i : Nat} (h : i + 2 ≤ buf.length) :
    readHalf buf i = some (beHalf buf[i] buf[i + 1]) := by
  simp [readHalf, List.getElem?_eq_getElem (show i < buf.length by omega),
    List.getElem?_eq_getElem (show i + 1 < buf.length by omega)]

theorem readHalf_eq_none {buf : List UInt8} {i : Nat} (h : buf.length < i + 2) :
    readHalf buf i = none := by
  have last : buf[i + 1]? = none := List.getElem?_eq_none (by omega)
  simp only [readHalf, last]
  cases buf[i]? <;> rfl

theorem readWord_isSome_iff {buf : List UInt8} {i : Nat} :
    (readWord buf i).isSome ↔ i + 4 ≤ buf.length := by
  by_cases fits : i + 4 ≤ buf.length
  · simp [readWord_eq_some fits, fits]
  · simp [readWord_eq_none (by omega : buf.length < i + 4), fits]

theorem readHalf_isSome_iff {buf : List UInt8} {i : Nat} :
    (readHalf buf i).isSome ↔ i + 2 ≤ buf.length := by
  by_cases fits : i + 2 ≤ buf.length
  · simp [readHalf_eq_some fits, fits]
  · simp [readHalf_eq_none (by omega : buf.length < i + 2), fits]

/-- Four octets assembled least significant first, as a little-endian load of
a `uint32_t`. -/
def leWord (b0 b1 b2 b3 : UInt8) : UInt32 :=
  b0.toUInt32 ||| (b1.toUInt32 <<< 8) ||| (b2.toUInt32 <<< 16) ||| (b3.toUInt32 <<< 24)

/-- The octets of a little-endian store of a `uint32_t`. -/
def leBytes (w : UInt32) : List UInt8 :=
  [w.toUInt8, (w >>> 8).toUInt8, (w >>> 16).toUInt8, (w >>> 24).toUInt8]

/-- The octets of a little-endian store of a `uint64_t`. -/
def leBytes64 (v : UInt64) : List UInt8 :=
  leBytes v.toUInt32 ++ leBytes (v >>> 32).toUInt32

/-- The little-endian word whose first octet is at offset `i`. -/
def readWordLE (buf : List UInt8) (i : Nat) : Option UInt32 := do
  let b0 ← buf[i]?
  let b1 ← buf[i + 1]?
  let b2 ← buf[i + 2]?
  let b3 ← buf[i + 3]?
  pure (leWord b0 b1 b2 b3)

/-- The `n` octets from offset `i`, all inside the buffer. -/
def readBytes (buf : List UInt8) (i n : Nat) : Option (List UInt8) :=
  if i + n ≤ buf.length then some ((buf.drop i).take n) else none

theorem readWordLE_isSome_iff {buf : List UInt8} {i : Nat} :
    (readWordLE buf i).isSome ↔ i + 4 ≤ buf.length := by
  by_cases fits : i + 4 ≤ buf.length
  · simp [readWordLE, List.getElem?_eq_getElem (show i < buf.length by omega),
      List.getElem?_eq_getElem (show i + 1 < buf.length by omega),
      List.getElem?_eq_getElem (show i + 2 < buf.length by omega),
      List.getElem?_eq_getElem (show i + 3 < buf.length by omega), fits]
  · have last : buf[i + 3]? = none := List.getElem?_eq_none (by omega)
    simp only [readWordLE, last, fits, iff_false]
    cases buf[i]? <;> cases buf[i + 1]? <;> cases buf[i + 2]? <;> simp

theorem readBytes_isSome_iff {buf : List UInt8} {i n : Nat} :
    (readBytes buf i n).isSome ↔ i + n ≤ buf.length := by
  unfold readBytes
  split <;> simp_all

theorem readBytes_length {buf bytes : List UInt8} {i n : Nat} (read : readBytes buf i n = some bytes) :
    bytes.length = n := by
  unfold readBytes at read
  split at read
  · cases read
    simp only [List.length_take, List.length_drop]
    omega
  · cases read

/-! Reads through a concatenation: past a prefix the offset moves by its
length, inside the first part the second does not matter. -/

theorem getElem?_append_offset (pre xs : List UInt8) (j : Nat) :
    (pre ++ xs)[pre.length + j]? = xs[j]? := by
  rw [List.getElem?_append_right (by omega), Nat.add_sub_cancel_left]

theorem readWord_append_offset (pre xs : List UInt8) (j : Nat) :
    readWord (pre ++ xs) (pre.length + j) = readWord xs j := by
  simp only [readWord, Nat.add_assoc, getElem?_append_offset]

theorem readHalf_append_offset (pre xs : List UInt8) (j : Nat) :
    readHalf (pre ++ xs) (pre.length + j) = readHalf xs j := by
  simp only [readHalf, Nat.add_assoc, getElem?_append_offset]

theorem readWord_append_inside {xs : List UInt8} (ys : List UInt8) {j : Nat}
    (inside : j + 4 ≤ xs.length) : readWord (xs ++ ys) j = readWord xs j := by
  rw [readWord_eq_some inside, readWord_eq_some (by simp; omega)]
  simp only [List.getElem_append_left (show j < xs.length by omega),
    List.getElem_append_left (show j + 1 < xs.length by omega),
    List.getElem_append_left (show j + 2 < xs.length by omega),
    List.getElem_append_left (show j + 3 < xs.length by omega)]

theorem readHalf_append_inside {xs : List UInt8} (ys : List UInt8) {j : Nat}
    (inside : j + 2 ≤ xs.length) : readHalf (xs ++ ys) j = readHalf xs j := by
  rw [readHalf_eq_some inside, readHalf_eq_some (by simp; omega)]
  simp only [List.getElem_append_left (show j < xs.length by omega),
    List.getElem_append_left (show j + 1 < xs.length by omega)]

/-! Unsigned 32-bit guards. A guard written with wrapping subtraction, as C
writes `k > buflen || n > buflen - k`, fails exactly when `k + n` fits. -/

theorem UInt32.sub_guard_iff (k b n : UInt32) :
    (k > b || n > b - k) = false ↔ k.toNat + n.toNat ≤ b.toNat := by
  have := k.toNat_lt
  have := b.toNat_lt
  simp only [Bool.or_eq_false_iff, decide_eq_false_iff_not, gt_iff_lt, UInt32.lt_iff_toNat_lt,
    UInt32.toNat_sub]
  omega

/-- The indirect form `k > b || x > b - k || n > b - (x + k)`, which also rules
out a wrapping `x + k`. -/
theorem UInt32.ind_guard_iff (k x b n : UInt32) :
    (k > b || x > b - k || n > b - (x + k)) = false ↔ x.toNat + k.toNat + n.toNat ≤ b.toNat := by
  have := k.toNat_lt
  have := b.toNat_lt
  have := x.toNat_lt
  simp only [Bool.or_eq_false_iff, decide_eq_false_iff_not, gt_iff_lt, UInt32.lt_iff_toNat_lt,
    UInt32.toNat_sub, UInt32.toNat_add]
  omega

/-- The same guard with the roles of `x` and `k` exchanged in its first two tests. -/
theorem UInt32.ind_swap_guard_iff (k x b n : UInt32) :
    (x > b || k > b - x || n > b - (x + k)) = false ↔ x.toNat + k.toNat + n.toNat ≤ b.toNat := by
  have := k.toNat_lt
  have := b.toNat_lt
  have := x.toNat_lt
  simp only [Bool.or_eq_false_iff, decide_eq_false_iff_not, gt_iff_lt, UInt32.lt_iff_toNat_lt,
    UInt32.toNat_sub, UInt32.toNat_add]
  omega

theorem UInt32.ind_byte_guard_iff (k x b : UInt32) :
    (k ≥ b || x ≥ b - k) = false ↔ x.toNat + k.toNat < b.toNat := by
  have := k.toNat_lt
  have := b.toNat_lt
  have := x.toNat_lt
  simp only [Bool.or_eq_false_iff, decide_eq_false_iff_not, ge_iff_le, UInt32.le_iff_toNat_le,
    UInt32.toNat_sub]
  omega

theorem UInt32.ge_guard_iff (k b : UInt32) : decide (k ≥ b) = false ↔ k.toNat < b.toNat := by
  simp only [decide_eq_false_iff_not, ge_iff_le, UInt32.le_iff_toNat_le]
  omega

/-! Against `b = 0` every guard fires. -/

theorem UInt32.sub_guard_zero (k n : UInt32) (pos : 0 < n.toNat) : (k > 0 || n > 0 - k) = true := by
  apply eq_true_of_ne_false
  intro fits
  have bound := (UInt32.sub_guard_iff k 0 n).mp fits
  simp only [UInt32.toNat_zero] at bound
  omega

theorem UInt32.ind_guard_zero (k x n : UInt32) (pos : 0 < n.toNat) :
    (k > 0 || x > 0 - k || n > 0 - (x + k)) = true := by
  apply eq_true_of_ne_false
  intro fits
  have bound := (UInt32.ind_guard_iff k x 0 n).mp fits
  simp only [UInt32.toNat_zero] at bound
  omega

theorem UInt32.ind_swap_guard_zero (k x n : UInt32) (pos : 0 < n.toNat) :
    (x > 0 || k > 0 - x || n > 0 - (x + k)) = true := by
  apply eq_true_of_ne_false
  intro fits
  have bound := (UInt32.ind_swap_guard_iff k x 0 n).mp fits
  simp only [UInt32.toNat_zero] at bound
  omega

theorem UInt32.ind_byte_guard_zero (k x : UInt32) : (k ≥ 0 || x ≥ 0 - k) = true := by
  apply eq_true_of_ne_false
  intro fits
  have bound := (UInt32.ind_byte_guard_iff k x 0).mp fits
  simp only [UInt32.toNat_zero] at bound
  omega

theorem UInt32.ge_guard_zero (k : UInt32) : decide (k ≥ 0) = true := by
  apply eq_true_of_ne_false
  intro fits
  have bound := (UInt32.ge_guard_iff k 0).mp fits
  simp only [UInt32.toNat_zero] at bound
  omega

theorem UInt32.toNat_add_of_le {x k b : UInt32} (h : x.toNat + k.toNat ≤ b.toNat) :
    (x + k).toNat = x.toNat + k.toNat := by
  have := b.toNat_lt
  rw [UInt32.toNat_add]
  omega

theorem UInt32.add_toNat_of_not_lt {a b : UInt32} (h : ¬a + b < a) :
    (a + b).toNat = a.toNat + b.toNat := by
  have := a.toNat_lt
  have := b.toNat_lt
  simp only [UInt32.lt_iff_toNat_lt, UInt32.toNat_add] at *
  omega

end Xnu
