import Mathlib

namespace Xnu

/-! Ones' complement sums, the arithmetic of the Internet checksum. Sixteen-bit
words are added with end-around carry. As a number the result is the sum
modulo `0xffff`, except that a nonzero multiple of `0xffff` folds to `0xffff`:
only zero folds to zero. Two sums fold alike exactly when they are `OnesEq`. -/

/-- The end-around-carry fold of a sum to sixteen bits. -/
def endAroundFold (x : Nat) : Nat := if x = 0 then 0 else (x - 1) % 0xffff + 1

/-- Equal modulo `0xffff`, and zero together. -/
def OnesEq (x y : Nat) : Prop := x % 0xffff = y % 0xffff ∧ (x = 0 ↔ y = 0)

section OnesEq

variable {a b c d x y : Nat}

theorem OnesEq.refl (x : Nat) : OnesEq x x := ⟨rfl, Iff.rfl⟩

theorem OnesEq.symm (same : OnesEq x y) : OnesEq y x := ⟨same.1.symm, same.2.symm⟩

theorem OnesEq.trans (first : OnesEq a b) (second : OnesEq b c) : OnesEq a c :=
  ⟨first.1.trans second.1, first.2.trans second.2⟩

theorem OnesEq.add (first : OnesEq a b) (second : OnesEq c d) : OnesEq (a + c) (b + d) := by
  obtain ⟨modAB, zeroAB⟩ := first
  obtain ⟨modCD, zeroCD⟩ := second
  refine ⟨by omega, ?_⟩
  rw [Nat.add_eq_zero_iff, Nat.add_eq_zero_iff, zeroAB, zeroCD]

theorem OnesEq.mul_left (k : Nat) (same : OnesEq a b) : OnesEq (k * a) (k * b) := by
  obtain ⟨mod, zero⟩ := same
  refine ⟨by rw [Nat.mul_mod, mod, ← Nat.mul_mod], ?_⟩
  rw [Nat.mul_eq_zero, Nat.mul_eq_zero, zero]

theorem endAroundFold_eq_iff : endAroundFold x = endAroundFold y ↔ OnesEq x y := by
  unfold endAroundFold OnesEq
  by_cases zeroX : x = 0 <;> by_cases zeroY : y = 0
  · simp [zeroX, zeroY]
  · simp only [zeroX, zeroY, if_true, if_false]
    exact ⟨fun folded => by omega, fun same => (same.2.mp trivial).elim⟩
  · simp only [zeroX, zeroY, if_true, if_false]
    exact ⟨fun folded => by omega, fun same => (same.2.mpr trivial).elim⟩
  · simp only [zeroX, zeroY, if_false, iff_self, and_true]
    omega

theorem onesEq_endAroundFold (x : Nat) : OnesEq (endAroundFold x) x := by
  unfold endAroundFold OnesEq
  by_cases zero : x = 0
  · simp [zero]
  · simp only [zero, if_false]
    exact ⟨by omega, fun folded => by omega, False.elim⟩

/-- A fold already in sixteen bits is the fold of everything it agrees with. -/
theorem eq_endAroundFold (small : x ≤ 0xffff) (same : OnesEq x y) : x = endAroundFold y := by
  have self : endAroundFold x = x := by
    unfold endAroundFold
    split <;> omega
  rw [← self]
  exact endAroundFold_eq_iff.mpr same

/-- Splitting a number into its high and low parts at a multiple of sixteen
bits keeps its fold, since `2^16 ≡ 1`. -/
theorem onesEq_split (x k : Nat) : OnesEq (x / 2 ^ (16 * k) + x % 2 ^ (16 * k)) x := by
  have unit : 2 ^ (16 * k) % 0xffff = 1 := by
    rw [pow_mul, Nat.pow_mod]
    simp
  have split := Nat.div_add_mod x (2 ^ (16 * k))
  -- `2^(16k) = 0xffff * t + 1`, so `x` is the two parts plus a multiple of `0xffff`
  have decompose : x = 0xffff * (2 ^ (16 * k) / 0xffff * (x / 2 ^ (16 * k))) +
      (x / 2 ^ (16 * k) + x % 2 ^ (16 * k)) := by
    have unitSplit := Nat.div_add_mod (2 ^ (16 * k)) 0xffff
    rw [unit] at unitSplit
    calc x = 2 ^ (16 * k) * (x / 2 ^ (16 * k)) + x % 2 ^ (16 * k) := split.symm
      _ = (0xffff * (2 ^ (16 * k) / 0xffff) + 1) * (x / 2 ^ (16 * k)) + x % 2 ^ (16 * k) := by
        rw [unitSplit]
      _ = _ := by ring
  refine ⟨by omega, ?_⟩
  constructor
  · intro zero
    obtain ⟨high, low⟩ := Nat.add_eq_zero_iff.mp zero
    rw [high, low, mul_zero, add_zero] at split
    exact split.symm
  · intro zero
    subst zero
    simp

/-- Rotating a 64-bit value left by a byte multiplies its fold by `256`. -/
theorem onesEq_rotate (p : Nat) :
    OnesEq (p * 256 % 2 ^ 64 + p / 2 ^ 56) (256 * p) := by
  -- the rotation is the split of `256 * p` at bit 64
  have high : 256 * p / 2 ^ (16 * 4) = p / 2 ^ 56 := by
    rw [show (2 : Nat) ^ (16 * 4) = 256 * 2 ^ 56 by norm_num]
    exact Nat.mul_div_mul_left p (2 ^ 56) (by norm_num)
  have low : 256 * p % 2 ^ (16 * 4) = p * 256 % 2 ^ 64 := by rw [Nat.mul_comm]
  have split := onesEq_split (256 * p) 4
  rw [high, low, Nat.add_comm] at split
  exact split

end OnesEq

/-! Words of a byte string. -/

/-- The sum of the little-endian sixteen-bit words of `bytes`, a last odd byte
padded with zero. -/
def wordSum : List UInt8 → Nat
  | [] => 0
  | [a] => a.toNat
  | a :: b :: rest => a.toNat + 256 * b.toNat + wordSum rest

/-- The bytes weighted by the half of a word they fall in; `odd` puts the first
byte in the high half. -/
def byteSum : List UInt8 → Bool → Nat
  | [], _ => 0
  | a :: rest, false => a.toNat + byteSum rest true
  | a :: rest, true => 256 * a.toNat + byteSum rest false

/-- The Internet checksum before its final complement: the fold of a starting
sum and the words of `bytes`. -/
def inCksum (initialSum : Nat) (bytes : List UInt8) : Nat :=
  endAroundFold (initialSum + wordSum bytes)

/-- The little-endian value of the `n` bytes at `a`. -/
def loadLE (read : Nat → UInt8) (a : Nat) : Nat → Nat
  | 0 => 0
  | n + 1 => (read a).toNat + 256 * loadLE read (a + 1) n

def memBytes (read : Nat → UInt8) (a n : Nat) : List UInt8 :=
  (List.range n).map fun i => read (a + i)

@[simp] theorem byteSum_nil (odd : Bool) : byteSum [] odd = 0 := by cases odd <;> rfl

theorem wordSum_eq_byteSum : ∀ bytes : List UInt8, wordSum bytes = byteSum bytes false
  | [] => rfl
  | [a] => by simp [wordSum, byteSum]
  | a :: b :: rest => by
    simp only [wordSum, byteSum, wordSum_eq_byteSum rest]
    omega

theorem byteSum_append : ∀ (front back : List UInt8) (odd : Bool),
    byteSum (front ++ back) odd = byteSum front odd + byteSum back (odd ^^ (front.length % 2 == 1))
  | [], back, odd => by simp
  | a :: front, back, false => by
    have rest := byteSum_append front back true
    simp only [List.cons_append, byteSum, rest, List.length_cons]
    have parity : (true ^^ (front.length % 2 == 1)) = (false ^^ ((front.length + 1) % 2 == 1)) := by
      rcases Nat.mod_two_eq_zero_or_one front.length with parity | parity <;> simp [Nat.add_mod, parity]
    rw [parity]
    omega
  | a :: front, back, true => by
    have rest := byteSum_append front back false
    simp only [List.cons_append, byteSum, rest, List.length_cons]
    have parity : (false ^^ (front.length % 2 == 1)) = (true ^^ ((front.length + 1) % 2 == 1)) := by
      rcases Nat.mod_two_eq_zero_or_one front.length with parity | parity <;> simp [Nat.add_mod, parity]
    rw [parity]
    omega

theorem byteSum_eq_zero : ∀ (bytes : List UInt8) (odd : Bool), byteSum bytes odd = 0 ↔ ∀ b ∈ bytes, b.toNat = 0
  | [], odd => by simp
  | a :: rest, false => by
    simp only [byteSum, Nat.add_eq_zero_iff, byteSum_eq_zero rest true, List.mem_cons, forall_eq_or_imp]
  | a :: rest, true => by
    simp only [byteSum, Nat.add_eq_zero_iff, byteSum_eq_zero rest false, List.mem_cons,
      forall_eq_or_imp, Nat.mul_eq_zero]
    simp

/-- Starting in the high half of a word multiplies the fold by `256`. -/
theorem byteSum_true (bytes : List UInt8) : OnesEq (byteSum bytes true) (256 * byteSum bytes false) := by
  refine ⟨?_, ?_⟩
  · induction bytes with
    | nil => simp
    | cons a rest ih =>
      -- `256 * 256 ≡ 1`, so one more step of the recursion closes the loop
      cases rest with
      | nil => simp [byteSum]
      | cons b rest' =>
        simp only [byteSum] at ih ⊢
        omega
  · rw [byteSum_eq_zero, Nat.mul_eq_zero, byteSum_eq_zero]
    simp

/-- Moving every byte to the other half of its word multiplies the fold by `256`. -/
theorem byteSum_flip (bytes : List UInt8) :
    ∀ odd : Bool, OnesEq (256 * byteSum bytes odd) (byteSum bytes (!odd))
  | false => (byteSum_true bytes).symm
  | true => by
    -- `256 * 256 = 2^16 ≡ 1`
    refine (((byteSum_true bytes).mul_left 256).trans ?_)
    rw [← Nat.mul_assoc]
    exact (onesEq_split (65536 * byteSum bytes false) 1).symm.trans (by
      simp only [Nat.reducePow, Nat.mul_one]
      rw [Nat.mul_div_cancel_left _ (by decide), Nat.mul_mod_right, Nat.add_zero]
      exact OnesEq.refl _)

theorem loadLE_onesEq (read : Nat → UInt8) :
    ∀ (a n : Nat), OnesEq (loadLE read a n) (byteSum (memBytes read a n) false)
  | _, 0 => by simp [loadLE, memBytes, OnesEq.refl]
  | a, n + 1 => by
    have bytes : memBytes read a (n + 1) = read a :: memBytes read (a + 1) n := by
      simp only [memBytes, List.range_succ_eq_map, List.map_cons, List.map_map, Nat.add_zero]
      congr 1
      apply List.map_congr_left
      intro i _
      simp only [Function.comp_apply]
      congr 1
      omega
    rw [bytes, loadLE, byteSum]
    exact (OnesEq.refl _).add (((loadLE_onesEq read (a + 1) n).mul_left 256).trans
      (byteSum_true _).symm)

theorem inCksum_append {initialSum : Nat} {front : List UInt8} (back : List UInt8)
    (even : front.length % 2 = 0) :
    inCksum (inCksum initialSum front) back = inCksum initialSum (front ++ back) := by
  unfold inCksum
  rw [endAroundFold_eq_iff, wordSum_eq_byteSum, wordSum_eq_byteSum, wordSum_eq_byteSum,
    byteSum_append]
  simp only [even]
  rw [← Nat.add_assoc]
  exact (onesEq_endAroundFold _).add (OnesEq.refl _)

end Xnu
