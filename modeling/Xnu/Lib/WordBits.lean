import Mathlib

namespace Xnu

/-! A 32-bit word as the set of the positions of its set bits. The bitwise
operations become the operations of `Finset (Fin 32)`, so that masks are
reasoned about in a Boolean algebra. -/

/-- The positions of the set bits of `a`. -/
def wordBits (a : UInt32) : Finset (Fin 32) := Finset.univ.filter fun i => a.toBitVec.getLsbD i

@[simp] theorem mem_wordBits {a : UInt32} {i : Fin 32} : i ∈ wordBits a ↔ a.toBitVec.getLsbD i = true := by
  simp [wordBits]

@[simp] theorem wordBits_and (a b : UInt32) : wordBits (a &&& b) = wordBits a ∩ wordBits b := by
  ext i
  simp

@[simp] theorem wordBits_or (a b : UInt32) : wordBits (a ||| b) = wordBits a ∪ wordBits b := by
  ext i
  simp

@[simp] theorem wordBits_not (a : UInt32) : wordBits (~~~a) = (wordBits a)ᶜ := by
  ext i
  simp [i.isLt]

theorem wordBits_and_not (a b : UInt32) : wordBits (a &&& ~~~b) = wordBits a \ wordBits b := by
  rw [wordBits_and, wordBits_not, Finset.sdiff_eq_inter_compl]

theorem wordBits_injective : Function.Injective wordBits := by
  intro a b same
  apply UInt32.toBitVec_inj.mp
  apply BitVec.eq_of_getLsbD_eq
  intro i inside
  have := congrArg (fun s => (⟨i, inside⟩ : Fin 32) ∈ s) same
  simpa using this

@[simp] theorem wordBits_zero : wordBits 0 = ∅ := by
  ext i
  simp

@[simp] theorem wordBits_eq_empty {a : UInt32} : wordBits a = ∅ ↔ a = 0 := by
  constructor
  · intro empty
    apply wordBits_injective
    rw [empty, wordBits_zero]
  · rintro rfl
    exact wordBits_zero

@[simp] theorem wordBits_eq_bot {a : UInt32} : wordBits a = ⊥ ↔ a = 0 := by
  rw [Finset.bot_eq_empty, wordBits_eq_empty]

/-- Setting bits outside a mask leaves the word under the mask as it was. -/
theorem or_and_of_and_eq_zero (a : UInt32) {b mask : UInt32} (outside : b &&& mask = 0) :
    (a ||| b) &&& mask = a &&& mask := by
  apply wordBits_injective
  have apart : wordBits b ∩ wordBits mask = ∅ := by rw [← wordBits_and, outside, wordBits_zero]
  rw [wordBits_and, wordBits_or, Finset.union_inter_distrib_right, apart, Finset.union_empty, wordBits_and]

/-- A word whose one set bit is `i` meets `r` exactly when bit `i` of `r` is set. -/
theorem and_ne_zero_iff_mem {r m : UInt32} {i : Fin 32} (single : wordBits m = {i}) :
    r &&& m ≠ 0 ↔ i ∈ wordBits r := by
  rw [ne_eq, ← wordBits_eq_empty, wordBits_and, single]
  by_cases present : i ∈ wordBits r
  · simp [present]
  · simp [present]

/-- Adding the bits of `e` where the one bit of `m` is set in `r`. -/
theorem wordBits_or_if {r m e : UInt32} {i : Fin 32} (single : wordBits m = {i}) :
    wordBits (if r &&& m ≠ 0 then r ||| e else r) =
      if i ∈ wordBits r then wordBits r ∪ wordBits e else wordBits r := by
  by_cases present : i ∈ wordBits r
  · rw [if_pos ((and_ne_zero_iff_mem single).mpr present), if_pos present, wordBits_or]
  · rw [if_neg (mt (and_ne_zero_iff_mem single).mp present), if_neg present]

end Xnu
