import Xnu.CodeSign.BlobCorrect

namespace Xnu.CodeSign

/-! What `hashes` returns for a code directory without a scatter vector: the
slot of the page, for every page up to and including `nCodeSlots`. The last of
these is one past the code slots, and nothing ties `codeLimit`, which sets the
pages `cs_validate_hash` looks up, to `nCodeSlots`. -/

theorem csValidRange_eq_true {start stop lower upper : Nat} :
    csValidRange start stop lower upper = true ↔ lower ≤ upper ∧ start ≤ stop ∧ lower ≤ start ∧ stop ≤ upper := by
  simp only [csValidRange, Bool.and_eq_true, Bool.not_eq_true', Bool.or_eq_false_iff, decide_eq_false_iff_not,
    not_lt]
  omega

section Linear

variable {buf : List UInt8} {cd : Nat} {hashLen lower upper : Nat}

/-- `hashes` without a scatter vector: the hash of `page` is slot `page`, and
the check lets `page` reach `nCodeSlots`. -/
theorem hashes_linear {page : UInt32} {h : Nat}
    (linear : ¬((readCodeDirectory buf cd).version ≥ csSupportsscatter ∧
      (readCodeDirectory buf cd).scatterOffset ≠ 0))
    (found : hashes buf cd page hashLen lower upper = some h) :
    let dir := readCodeDirectory buf cd
    h = cd + dir.hashOffset.toNat + page.toNat * hashLen ∧ page ≤ dir.nCodeSlots ∧ lower ≤ h ∧
      h + hashLen ≤ upper := by
  unfold hashes at found
  generalize readCodeDirectory buf cd = dir at found linear ⊢
  dsimp only at found ⊢
  rw [if_neg (by simpa using linear)] at found
  split at found
  · contradiction
  rename_i slots
  simp only [Option.bind_some] at found
  split at found
  · rename_i inside
    cases found
    simp only [Bool.or_eq_true, decide_eq_true_eq, not_or, Bool.not_eq_true', Bool.not_eq_false] at slots
    obtain ⟨-, upTo⟩ := slots
    have inside := csValidRange_eq_true.mp inside
    exact ⟨rfl, UInt32.not_lt.mp upTo, inside.2.2.1, inside.2.2.2⟩
  · contradiction

/-- Without a scatter vector, the page `nCodeSlots` is given the `hashLen`
bytes that follow the code slots, wherever they lie inside the bounds. -/
theorem hashes_nCodeSlots
    (linear : ¬((readCodeDirectory buf cd).version ≥ csSupportsscatter ∧
      (readCodeDirectory buf cd).scatterOffset ≠ 0))
    (above : lower ≤ cd + (readCodeDirectory buf cd).hashOffset.toNat)
    (fits : cd + (readCodeDirectory buf cd).hashOffset.toNat +
      ((readCodeDirectory buf cd).nCodeSlots.toNat + 1) * hashLen ≤ upper) :
    let dir := readCodeDirectory buf cd
    hashes buf cd dir.nCodeSlots hashLen lower upper =
      some (cd + dir.hashOffset.toNat + dir.nCodeSlots.toNat * hashLen) := by
  unfold hashes
  generalize readCodeDirectory buf cd = dir at linear above fits ⊢
  dsimp only
  have slots : csValidRange (cd + dir.hashOffset.toNat) (cd + dir.hashOffset.toNat + dir.nCodeSlots.toNat * hashLen)
      lower upper = true := by
    rw [csValidRange_eq_true, Nat.add_mul] at *
    omega
  have hash : csValidRange (cd + dir.hashOffset.toNat + dir.nCodeSlots.toNat * hashLen)
      (cd + dir.hashOffset.toNat + dir.nCodeSlots.toNat * hashLen + hashLen) lower upper = true := by
    rw [csValidRange_eq_true, Nat.add_mul] at *
    omega
  simp [linear, slots, hash]

end Linear

/-- The page-hash lookup of `cs_validate_hash` on `twoPageSignature`, which
`cs_validate_csblob` accepts: the second page is covered by `codeLimit`, its
index equals `nCodeSlots`, and its expected hash is read from the first bytes
of the next blob of the superblob, the requirements blob (slot 2, magic
`CSMAGIC_REQUIREMENTS`). -/
theorem csValidateHashLookup_reads_next_blob :
    csValidateCsblob 12 twoPageSignature twoPageSignature.length = some (28, none) ∧
      (readCodeDirectory twoPageSignature 28).nCodeSlots = 1 ∧
      (readCodeDirectory twoPageSignature 28).hashSize = 20 ∧
      csValidateHashLookup twoPageSignature 28 twoPageSignature.length
          ((readCodeDirectory twoPageSignature 28).nCodeSlots.toNat *
            2 ^ (readCodeDirectory twoPageSignature 28).pageSize.toNat) =
        some (28 + (readCodeDirectory twoPageSignature 28).hashOffset.toNat +
          (readCodeDirectory twoPageSignature 28).nCodeSlots.toNat *
            (readCodeDirectory twoPageSignature 28).hashSize.toNat) ∧
      csblobFindBlobBytes twoPageSignature twoPageSignature.length 2 0xfade0c01 =
        some (28 + (readCodeDirectory twoPageSignature 28).hashOffset.toNat +
          (readCodeDirectory twoPageSignature 28).nCodeSlots.toNat *
            (readCodeDirectory twoPageSignature 28).hashSize.toNat) := by
  decide +kernel

end Xnu.CodeSign
