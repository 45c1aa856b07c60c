import Xnu.CodeSign.Blob

namespace Xnu.CodeSign

/-! What `cs_validate_csblob` establishes about a signature it accepts. The
code directory check gives `CdWellFormed`, one field per check of the source;
each turn of the loop over the index entries leaves every entry seen so far
inside the superblob, and the best code directory and the entitlements blob
are among them. -/

/-- A NUL byte at an offset in `[off, length)` from `pos`: a string that starts
at `off` ends inside `length` bytes. -/
def NulWithin (buf : List UInt8) (pos off length : Nat) : Prop :=
  ∃ i, off ≤ i ∧ i < length ∧ buf[pos + i]? = some 0

/-- The scatter vector at `scatter` has a zero-count entry `k`, no entry before
it has count zero, and the entries up to and including it end by `cdEnd`. -/
def ScatterEnds (buf : List UInt8) (cdEnd scatter : Nat) : Prop :=
  ∃ k, scatter + scatterSize * (k + 1) ≤ cdEnd ∧ field32 buf (scatter + scatterSize * k) = 0 ∧
    ∀ j < k, field32 buf (scatter + scatterSize * j) ≠ 0

/-- The blob at `pos` has its header and its `length` bytes inside the first
`length` bytes of the buffer. -/
def BlobWithin (buf : List UInt8) (length pos : Nat) : Prop :=
  pos + genericBlobSize ≤ length ∧ pos + blobLength buf pos ≤ length

/-- What `cs_validate_codedirectory(cd, length)` establishes about the code
directory `dir` read at `pos`. -/
structure CdWellFormed (pageShift : UInt8) (buf : List UInt8) (pos length : Nat)
    (dir : CodeDirectory) : Prop where
  size : cdSize ≤ length
  magic : dir.magic = csmagicCodedirectory
  pageSize : pageShift4k ≤ dir.pageSize ∧ dir.pageSize ≤ pageShift
  hashSize : ∃ hashtype, csFindMd dir.hashType = some hashtype ∧ dir.hashSize.toNat = hashtype.csSize
  specialSlots : dir.nSpecialSlots.toNat * dir.hashSize.toNat ≤ dir.hashOffset.toNat
  codeSlots : dir.hashOffset.toNat + dir.nCodeSlots.toNat * dir.hashSize.toNat ≤ length
  scatter : dir.version ≥ csSupportsscatter → dir.scatterOffset ≠ 0 →
    ScatterEnds buf (pos + length) (pos + dir.scatterOffset.toNat)
  identOffset : dir.identOffset.toNat ≤ length
  ident : dir.identOffset ≠ 0 → NulWithin buf pos dir.identOffset.toNat length
  team : dir.version ≥ csSupportsteamid → dir.teamOffset ≠ 0 →
    NulWithin buf pos dir.teamOffset.toNat length
  linkage : dir.version ≥ csSupportslinkage → dir.linkageHashType ≠ 0 →
    dir.linkageOffset.toNat + dir.linkageSize.toNat ≤ length

theorem csFindMd_csSize_pos {type : UInt8} {hashtype : CsHash} (found : csFindMd type = some hashtype) :
    0 < hashtype.csSize := by
  unfold csFindMd at found
  split_ifs at found <;> cases found <;> decide

theorem memchrNul_nulWithin {buf : List UInt8} {pos off length : Nat}
    (found : memchrNul buf (pos + off) (length - off) = true) : NulWithin buf pos off length := by
  simp only [memchrNul, List.contains_iff_mem, List.mem_iff_getElem?, List.getElem?_take,
    List.getElem?_drop] at found
  obtain ⟨i, at_i⟩ := found
  split at at_i
  · refine ⟨off + i, by omega, by omega, ?_⟩
    rw [← Nat.add_assoc]
    exact at_i
  · cases at_i

/-- The scatter loop of the check accepts only a vector that ends inside the
code directory. -/
theorem scatterValid_ends {buf : List UInt8} {cdEnd scatter : Nat} {nPages : UInt32}
    (valid : scatterValid buf cdEnd scatter nPages = true) : ScatterEnds buf cdEnd scatter := by
  fun_induction scatterValid buf cdEnd scatter nPages with
  | case1 => simp at valid
  | case2 scatter _ inside scount last =>
    exact ⟨0, by omega, by simpa using last, by simp⟩
  | case3 => simp at valid
  | case4 scatter _ inside scount counted _ ih =>
    -- the terminator of the rest is one entry further from `scatter`
    obtain ⟨k, fits, last, before⟩ := ih valid
    have shift (j : Nat) : scatter + scatterSize * (j + 1) = scatter + scatterSize + scatterSize * j := by
      ring
    refine ⟨k + 1, by rw [shift]; exact fits, by rw [shift]; exact last, ?_⟩
    intro j below
    cases j with
    | zero => simpa using counted
    | succ j => rw [shift]; exact before j (by omega)

/-- The checks of `cs_validate_codedirectory`, as facts about the code
directory it accepts. -/
theorem CdWellFormed.of_valid {pageShift : UInt8} {buf : List UInt8} {pos length : Nat}
    (valid : csValidateCodedirectory pageShift buf pos length = true) :
    CdWellFormed pageShift buf pos length (readCodeDirectory buf pos) := by
  unfold csValidateCodedirectory at valid
  generalize readCodeDirectory buf pos = dir at valid ⊢
  simp only [Bool.if_false_left, Bool.and_eq_true, Bool.not_eq_true', decide_eq_false_iff_not] at valid
  obtain ⟨short, magic, page, rest⟩ := valid
  split at rest
  · contradiction
  rename_i hashtype found
  simp only [Bool.and_eq_true, decide_eq_false_iff_not, decide_eq_true_eq, Bool.or_eq_true,
    Bool.not_eq_eq_eq_not, Bool.not_true, Bool.not_eq_false, not_and, not_or, not_lt, ne_eq,
    not_not] at rest page magic
  obtain ⟨size, hashOff, special, code, scatter, ident, identNul, team, link, -⟩ := rest
  have positive := csFindMd_csSize_pos found
  refine ⟨by omega, magic, ⟨by simpa using page.1, by simpa using page.2⟩, ⟨hashtype, found, size⟩,
    ?_, ?_, ?_, ident, ?_, ?_, ?_⟩
  · rw [size]
    exact (Nat.le_div_iff_mul_le positive).mp special
  · rw [size]
    have slots := (Nat.le_div_iff_mul_le positive).mp code
    omega
  · intro newer scattered
    exact scatterValid_ends (scatter ⟨newer, scattered⟩).2
  · intro named
    exact memchrNul_nulWithin (identNul named)
  · intro newer named
    exact memchrNul_nulWithin (team ⟨newer, named⟩).2
  · intro newer linked
    have inside := link ⟨newer, linked⟩
    omega

theorem csValidateBlob_eq_true {buf : List UInt8} {pos length : Nat} :
    csValidateBlob buf pos length = true ↔ genericBlobSize ≤ length ∧ blobLength buf pos ≤ length := by
  simp [csValidateBlob]

theorem BlobWithin.mono {buf : List UInt8} {length length' pos : Nat} (within : BlobWithin buf length pos)
    (le : length ≤ length') : BlobWithin buf length' pos :=
  ⟨within.1.trans le, within.2.trans le⟩

section Scan

variable {pageShift : UInt8} {buf : List UInt8} {length : Nat}

/-- What the loop of `cs_validate_csblob` keeps: the best code directory is
a well-formed code directory inside the superblob, the entitlements blob is
inside it. -/
structure ScanBounded (pageShift : UInt8) (buf : List UInt8) (length : Nat) (scan : CsblobScan) : Prop where
  bestCd : ∀ cd, scan.bestCd = some cd → BlobWithin buf length cd ∧
    CdWellFormed pageShift buf cd (blobLength buf cd) (readCodeDirectory buf cd)
  entitlements : ∀ ents, scan.entitlements = some ents → BlobWithin buf length ents

/-- What one turn of the loop can do: the entry lies inside the superblob, and
the best code directory and the entitlements blob either stay or become that
entry, a code directory only once it is checked. -/
theorem csblobIndexStep_cases {scan scan' : CsblobScan} {n : Nat}
    (step : csblobIndexStep pageShift buf length scan n = some scan') :
    BlobWithin buf length (blobIndexOffset buf n) ∧
      (scan'.bestCd = scan.bestCd ∨ scan'.bestCd = some (blobIndexOffset buf n) ∧
        csValidateCodedirectory pageShift buf (blobIndexOffset buf n)
          (blobLength buf (blobIndexOffset buf n)) = true) ∧
      (scan'.entitlements = scan.entitlements ∨ scan'.entitlements = some (blobIndexOffset buf n)) := by
  unfold csblobIndexStep at step
  dsimp only at step
  split at step
  · contradiction
  rename_i inside
  split at step
  · contradiction
  rename_i blob
  have sub := csValidateBlob_eq_true.mp (by simpa using blob)
  refine ⟨⟨by unfold genericBlobSize at sub ⊢; omega, by omega⟩, ?_⟩
  split at step
  · -- a code directory: checked, then kept if its hash type ranks higher
    split at step
    · contradiction
    rename_i checked
    split at step
    · cases step
      exact ⟨.inr ⟨rfl, by simpa using checked⟩, .inl rfl⟩
    split at step
    · contradiction
    · cases step
      exact ⟨.inl rfl, .inl rfl⟩
  split at step
  · -- the entitlements blob, at most one
    split at step
    · contradiction
    split at step
    · contradiction
    cases step
    exact ⟨.inl rfl, .inr rfl⟩
  · cases step
    exact ⟨.inl rfl, .inl rfl⟩

theorem ScanBounded.step {scan scan' : CsblobScan} {n : Nat} (bounded : ScanBounded pageShift buf length scan)
    (step : csblobIndexStep pageShift buf length scan n = some scan') : ScanBounded pageShift buf length scan' := by
  obtain ⟨within, best, ents⟩ := csblobIndexStep_cases step
  constructor
  · intro cd found
    rcases best with same | ⟨fresh, checked⟩
    · exact bounded.bestCd cd (same ▸ found)
    · rw [fresh, Option.some.injEq] at found
      subst found
      exact ⟨within, CdWellFormed.of_valid checked⟩
  · intro e found
    rcases ents with same | fresh
    · exact bounded.entitlements e (same ▸ found)
    · rw [fresh, Option.some.injEq] at found
      subst found
      exact within

/-- A whole run of the loop keeps `ScanBounded` and puts every entry it
passes inside the superblob. -/
theorem foldlM_csblobIndexStep {entries : List Nat} {scan scan' : CsblobScan}
    (run : entries.foldlM (csblobIndexStep pageShift buf length) scan = some scan')
    (bounded : ScanBounded pageShift buf length scan) :
    ScanBounded pageShift buf length scan' ∧ ∀ n ∈ entries, BlobWithin buf length (blobIndexOffset buf n) := by
  induction entries generalizing scan with
  | nil =>
    cases run
    exact ⟨bounded, by simp⟩
  | cons n rest ih =>
    rw [List.foldlM_cons] at run
    obtain ⟨mid, step, run⟩ := Option.bind_eq_some_iff.mp run
    obtain ⟨final, entries⟩ := ih run (bounded.step step)
    refine ⟨final, ?_⟩
    intro m member
    rcases List.mem_cons.mp member with rfl | later
    · exact (csblobIndexStep_cases step).1
    · exact entries m later

end Scan

theorem findBlobIndex_mem {buf : List UInt8} {length : Nat} {type magic : UInt32} {entries : List Nat} {b : Nat}
    (found : findBlobIndex buf length type magic entries = some b) :
    ∃ n ∈ entries, b = blobIndexOffset buf n := by
  induction entries with
  | nil => cases found
  | cons n rest ih =>
    unfold findBlobIndex at found
    dsimp only at found
    split at found
    · obtain ⟨m, member, at_m⟩ := ih found
      exact ⟨m, List.mem_cons_of_mem n member, at_m⟩
    split at found
    · contradiction
    split at found
    · obtain ⟨m, member, at_m⟩ := ih found
      exact ⟨m, List.mem_cons_of_mem n member, at_m⟩
    · cases found
      exact ⟨n, List.mem_cons_self, rfl⟩

/-- A special slot found with the code directory's own hash size lies among
the `nSpecialSlots` slots in front of `hashOffset`. -/
theorem findSpecialSlot_within {buf : List UInt8} {cd : Nat} {slot : UInt32} {r : Int}
    (found : findSpecialSlot buf cd (readCodeDirectory buf cd).hashSize.toNat slot = some r) :
    let dir := readCodeDirectory buf cd
    ((cd + dir.hashOffset.toNat : Nat) : Int) - (dir.nSpecialSlots.toNat * dir.hashSize.toNat : Nat) ≤ r ∧
      r + dir.hashSize.toNat ≤ ((cd + dir.hashOffset.toNat : Nat) : Int) := by
  unfold findSpecialSlot at found
  generalize readCodeDirectory buf cd = dir at found ⊢
  dsimp only at found ⊢
  split at found
  · contradiction
  rename_i inRange
  cases found
  simp only [Bool.or_eq_true, decide_eq_true_eq, not_or] at inRange
  obtain ⟨upTo, nonzero⟩ := inRange
  have atLeastOne : 1 ≤ slot.toNat := by
    have := UInt32.toNat_inj.not.mpr nonzero
    simp only [UInt32.toNat_zero] at this
    omega
  have upToNat : slot.toNat ≤ dir.nSpecialSlots.toNat := by
    have := UInt32.lt_iff_toNat_lt.not.mp upTo
    omega
  have below : dir.hashSize.toNat * slot.toNat ≤ dir.nSpecialSlots.toNat * dir.hashSize.toNat := by
    rw [Nat.mul_comm]
    exact Nat.mul_le_mul_right _ upToNat
  have above : dir.hashSize.toNat ≤ dir.hashSize.toNat * slot.toNat := Nat.le_mul_of_pos_right _ atLeastOne
  omega

/-- A signature that `cs_validate_csblob` accepts: the code directory lies
inside the buffer and passed every check of `cs_validate_codedirectory`, the
entitlements blob lies inside the buffer, so does every blob
`csblob_find_blob_bytes` returns, and every special slot `find_special_slot`
returns lies in front of `hashOffset`. -/
theorem csValidateCsblob_bounds (pageShift : UInt8) (buf : List UInt8) (cd : Nat) (ents : Option Nat)
    (valid : csValidateCsblob pageShift buf buf.length = some (cd, ents)) :
    let dir := readCodeDirectory buf cd
    BlobWithin buf buf.length cd ∧ CdWellFormed pageShift buf cd (blobLength buf cd) dir ∧
      (∀ e, ents = some e → BlobWithin buf buf.length e) ∧
      (∀ type magic b, csblobFindBlobBytes buf buf.length type magic = some b → BlobWithin buf buf.length b) ∧
      (∀ slot r, findSpecialSlot buf cd dir.hashSize.toNat slot = some r →
        ((cd + dir.hashOffset.toNat : Nat) : Int) - (dir.nSpecialSlots.toNat * dir.hashSize.toNat : Nat) ≤ r ∧
          r + dir.hashSize.toNat ≤ ((cd + dir.hashOffset.toNat : Nat) : Int)) := by
  intro dir
  have slots (slot : UInt32) (r : Int) (found : findSpecialSlot buf cd dir.hashSize.toNat slot = some r) :=
    findSpecialSlot_within found
  unfold csValidateCsblob at valid
  dsimp only at valid
  split at valid
  · contradiction
  rename_i header
  have header := csValidateBlob_eq_true.mp (by simpa using header)
  split at valid
  · -- a superblob: the loop has seen every index entry
    rename_i embedded
    split at valid
    · contradiction
    split at valid
    · contradiction
    split at valid
    · contradiction
    rename_i scan run
    obtain ⟨bounded, entries⟩ := foldlM_csblobIndexStep run ⟨by simp, by simp⟩
    cases found : scan.bestCd with
    | none => simp [found] at valid
    | some best =>
      simp only [found, Option.map_some, Option.some.injEq, Prod.mk.injEq] at valid
      obtain ⟨rfl, rfl⟩ := valid
      obtain ⟨within, wellFormed⟩ := bounded.bestCd best found
      refine ⟨within.mono header.2, wellFormed, fun e at_e => (bounded.entitlements e at_e).mono header.2, ?_,
        slots⟩
      intro type magic b lookup
      simp only [csblobFindBlobBytes, embedded, if_true] at lookup
      obtain ⟨n, member, rfl⟩ := findBlobIndex_mem lookup
      exact (entries n member).mono header.2
  · -- a code directory on its own
    rename_i notEmbedded
    split at valid
    · split at valid
      · rename_i checked
        cases valid
        have whole : BlobWithin buf buf.length 0 := ⟨by simpa using header.1, by simpa using header.2⟩
        refine ⟨whole, CdWellFormed.of_valid checked, by simp, ?_, slots⟩
        intro type magic b lookup
        simp only [csblobFindBlobBytes, if_neg notEmbedded] at lookup
        split at lookup
        · cases lookup
          exact whole
        · contradiction
      · contradiction
    · contradiction

/-- A superblob of two entries: a code directory with one SHA-1 code slot
and a `codeLimit` of two 4 KiB pages, and a requirements blob right after
it. -/
def twoPageSignature : List UInt8 :=
  [0xfa, 0xde, 0x0c, 0xc0, 0, 0, 0, 0xb8, 0, 0, 0, 2,
   0, 0, 0, 0, 0, 0, 0, 0x1c,
   0, 0, 0, 2, 0, 0, 0, 0x9c] ++
  ([0xfa, 0xde, 0x0c, 0x02, 0, 0, 0, 0x80, 0, 2, 0, 1, 0, 0, 0, 0,
    0, 0, 0, 0x6c, 0, 0, 0, 0, 0, 0, 0, 0, 0, 0, 0, 1,
    0, 0, 0x20, 0, 0x14, 1, 0, 0x0c] ++ List.replicate 68 0 ++ List.replicate 20 0xaa) ++
  ([0xfa, 0xde, 0x0c, 0x01, 0, 0, 0, 0x1c] ++ List.replicate 20 0xbb)

theorem csValidateCsblob_bounds_twoPage :
    csValidateCsblob 12 twoPageSignature twoPageSignature.length = some (28, none) ∧
      BlobWithin twoPageSignature twoPageSignature.length 28 := by
  have valid : csValidateCsblob 12 twoPageSignature twoPageSignature.length = some (28, none) := by
    decide +kernel
  exact ⟨valid, (csValidateCsblob_bounds 12 twoPageSignature 28 none valid).1⟩

/-- A code directory on its own with one code slot of
`CS_HASHTYPE_SHA256_TRUNCATED`. -/
def truncatedSignature : List UInt8 :=
  [0xfa, 0xde, 0x0c, 0x02, 0, 0, 0, 0x80, 0, 2, 0, 1, 0, 0, 0, 0,
   0, 0, 0, 0x6c, 0, 0, 0, 0, 0, 0, 0, 0, 0, 0, 0, 1,
   0, 0, 0x10, 0, 0x14, 3, 0, 0x0c] ++ List.replicate 68 0 ++ List.replicate 20 0xaa

/-- The hash size is checked against `cs_size`, not against the digest size:
a truncated SHA-256 code directory stores 20-byte hashes of a 32-byte digest. -/
theorem csValidateCsblob_truncated_hashSize :
    csValidateCsblob 12 truncatedSignature truncatedSignature.length = some (0, none) ∧
      csFindMd (readCodeDirectory truncatedSignature 0).hashType = some ⟨3, 20, 32⟩ ∧
      (readCodeDirectory truncatedSignature 0).hashSize.toNat = 20 := by
  decide +kernel

end Xnu.CodeSign
