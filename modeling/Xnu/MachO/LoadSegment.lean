import Xnu.MachO.LoaderCorrect
import Xnu.Lib.CInt

namespace Xnu.MachO

/-! `load_segment` of `bsd/kern/mach_loader.c` up to the point where it maps
the segment: the checks of `Xnu.MachO.Loader`, the alignment of the segment
in the file, the test that the segment lies within the signed part of the
file, and the slide of its address. That test subtracts the `uint64_t`
`fileoff` from the `off_t` `cs_end_offset`; the difference is computed as
`uint64_t`, so where the segment starts past the signed part it wraps to a
value no segment inside the Mach-O reaches, and the test never rejects a
segment. -/

/-- `load_return_t`. -/
inductive LoadReturn where
  | success
  | badMacho
  | failure
  | protect
  | resource
  | decryptFail
deriving DecidableEq, Repr

/-- `FOURK_PAGE_MASK`. -/
def fourkPageMask : UInt64 := 0xfff

/-- `scp->vmaddr`, widened for `LC_SEGMENT`. -/
def segmentVmaddr (buf : List UInt8) (lc : LoadCommand) : UInt64 :=
  if lc.cmd = lcSegment64 then field64 buf (lc.offset + 24) else (field32 buf (lc.offset + 24)).toUInt64

/-- `scp->vmsize`, widened for `LC_SEGMENT`. -/
def segmentVmsize (buf : List UInt8) (lc : LoadCommand) : UInt64 :=
  if lc.cmd = lcSegment64 then field64 buf (lc.offset + 32) else (field32 buf (lc.offset + 28)).toUInt64

/-- `os_add_overflow(a, b, &sum)` of an `int64_t` and a `uint64_t` into a
`uint64_t`: the sum where it fits. -/
def addOverflowU64 (a : Int64) (b : UInt64) : Option UInt64 :=
  let sum := a.toInt + b.toNat
  if 0 ≤ sum ∧ sum < 2 ^ 64 then some sum.toNat.toUInt64 else none

/-- The test that a segment is outside the code signature,
`cs_end_offset && cs_end_offset < (off_t)fileoff && cs_end_offset - fileoff < filesize`:
`true` where `load_segment` returns `LOAD_BADMACHO`. -/
def outsideCodeSignature (csEndOffset : Int64) (fileoff filesize : UInt64) : Bool :=
  csEndOffset ≠ 0 && csEndOffset < fileoff.toInt64 && csEndOffset.toUInt64 - fileoff < filesize

/-- What `load_segment` reads besides the command: `pager_offset`,
`PAGE_MASK_64`, `vm_map_page_mask(map)`, whether the segment needs 4K
alignment, `result->cs_end_offset` and `slide`. -/
structure SegmentEnv where
  pagerOffset : Int64
  pageMask : UInt64
  mapPageMask : UInt64
  fourkAlign : Bool
  csEndOffset : Int64
  slide : Int64

/-- `load_segment` for the command `lc` up to `if (vm_size == 0) return
LOAD_SUCCESS;`; `mapped` is what it returns past that point. The test
`scp->vmsize > SIZE_MAX` is never true of a 64-bit `size_t` and is left out. -/
def loadSegment (buf : List UInt8) (machoSize : Nat) (env : SegmentEnv) (mapped : LoadReturn) (lc : LoadCommand) :
    LoadReturn :=
  if !loadSegmentChecks buf machoSize lc then .badMacho
  else
    let fileoff := segmentFileoff buf lc
    let filesize := segmentFilesize buf lc
    match addOverflowU64 env.pagerOffset fileoff with
    | none => .badMacho
    | some fileOffset =>
      -- we can't mmap() it if it's not page-aligned in the file
      let misaligned := if env.fourkAlign then fileOffset &&& fourkPageMask ≠ 0
        else fileOffset &&& env.pageMask ≠ 0 || fileOffset &&& env.mapPageMask ≠ 0
      if misaligned then .badMacho
      else if outsideCodeSignature env.csEndOffset fileoff filesize then .badMacho
      else
        match addOverflowU64 env.slide (segmentVmaddr buf lc) with
        | none => .badMacho
        | some _ => if segmentVmsize buf lc = 0 then .success else mapped

/-- Within a Mach-O smaller than `2 ^ 63` bytes the test is false whatever
`cs_end_offset` is: a segment starting at or below it fails the second
conjunct, and one starting above it makes the difference wrap past every
`filesize` the segment can have. -/
theorem outsideCodeSignature_eq_false (csEndOffset : Int64) {fileoff filesize : UInt64}
    (inside : fileoff.toNat + filesize.toNat < 2 ^ 63) : outsideCodeSignature csEndOffset fileoff filesize = false := by
  have signed : fileoff.toInt64.toInt = fileoff.toNat := UInt64.toInt_toInt64_of_lt (by omega)
  have unsigned := Int64.toNat_toUInt64_eq_emod csEndOffset
  have low := Int64.le_toInt csEndOffset
  have high := Int64.toInt_lt csEndOffset
  -- the two's complement of a value below `fileoff` lies at least `2 ^ 64 - fileoff` above it
  have never : ¬ (csEndOffset < fileoff.toInt64 ∧ csEndOffset.toUInt64 - fileoff < filesize) := by
    rw [Int64.lt_iff_toInt_lt, signed, UInt64.lt_iff_toNat_lt, UInt64.toNat_sub]
    rintro ⟨below, wraps⟩
    have fileoffLt := fileoff.toNat_lt
    omega
  unfold outsideCodeSignature
  by_cases below : csEndOffset < fileoff.toInt64
  · have notWraps : ¬ csEndOffset.toUInt64 - fileoff < filesize := fun wraps => never ⟨below, wraps⟩
    simp [below, notWraps]
  · simp [below]

/-- `load_segment` returns the same for every `cs_end_offset`, the one a code
signature sets included, as for none: the signature test never rejects a
segment of a Mach-O smaller than `2 ^ 63` bytes. -/
theorem loadSegment_ignores_code_signature (buf : List UInt8) {machoSize : Nat} (small : machoSize < 2 ^ 63)
    (env : SegmentEnv) (mapped : LoadReturn) (lc : LoadCommand) :
    loadSegment buf machoSize env mapped lc = loadSegment buf machoSize { env with csEndOffset := 0 } mapped lc := by
  unfold loadSegment
  by_cases accepted : loadSegmentChecks buf machoSize lc = true
  · obtain ⟨_, _, within, _⟩ := loadSegmentChecks_spec accepted
    have inside : (segmentFileoff buf lc).toNat + (segmentFilesize buf lc).toNat < 2 ^ 63 := by omega
    have signed := outsideCodeSignature_eq_false env.csEndOffset inside
    have unsigned := outsideCodeSignature_eq_false 0 inside
    simp only [accepted, Bool.not_true, signed, unsigned]
  · simp only [accepted, Bool.not_false, if_true]

/-- A 64-bit segment command of no size in memory whose file range
`[0x8000, 0xc000)` starts past a signature ending at `0x4000`. -/
def unsignedSegmentImage : List UInt8 :=
  leBytes lcSegment64 ++ leBytes 72 ++ List.replicate 16 0 ++ leBytes64 0x100000000 ++ leBytes64 0 ++
    leBytes64 0x8000 ++ leBytes64 0x4000 ++ leBytes 1 ++ leBytes 1 ++ leBytes 0 ++ leBytes 0

theorem loadSegment_ignores_code_signature_past_end :
    let env : SegmentEnv := ⟨0, 0xfff, 0xfff, false, 0x4000, 0⟩
    let lc := loadCommandAt unsignedSegmentImage 0
    (0x10000 : Nat) < 2 ^ 63 ∧ segmentFilesize unsignedSegmentImage lc ≠ 0 ∧
      env.csEndOffset.toInt < (segmentFileoff unsignedSegmentImage lc).toNat ∧
      loadSegment unsignedSegmentImage 0x10000 env .failure lc =
        loadSegment unsignedSegmentImage 0x10000 { env with csEndOffset := 0 } .failure lc ∧
      loadSegment unsignedSegmentImage 0x10000 env .failure lc = .success := by
  intro env lc
  refine ⟨by decide, by decide +kernel, by decide +kernel, ?_, by decide +kernel⟩
  exact loadSegment_ignores_code_signature unsignedSegmentImage (by decide) env .failure lc

end Xnu.MachO
