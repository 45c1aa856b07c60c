import Xnu.MachO.LoadSegment

namespace Xnu.MachO

/-! `set_code_unprotect` of `bsd/kern/mach_loader.c`: for an
`LC_ENCRYPTION_INFO(_64)` command it rescans the load commands for the
segment whose file range covers `[cryptoff, cryptoff + cryptsize)` and hands
`vm_map_apple_protected` the matching range of the map. The test sums the two
`uint32_t` fields in 32 bits, so an encrypted range whose end passes `2 ^ 32`
is taken as covered by a segment that holds only its wrapped end. How the
decrypter is set up (`vn_getpath`, `text_crypter_create`) is an outcome the
model is given. -/

/-- `sizeof(struct encryption_info_command)`. -/
def encryptionInfoCommandSize : Nat := 20

/-- `eip->cryptoff`. -/
def cryptoffOf (buf : List UInt8) (eip : LoadCommand) : UInt32 := field32 buf (eip.offset + 8)

/-- `eip->cryptsize`. -/
def cryptsizeOf (buf : List UInt8) (eip : LoadCommand) : UInt32 := field32 buf (eip.offset + 12)

/-- `eip->cryptid`. -/
def cryptidOf (buf : List UInt8) (eip : LoadCommand) : UInt32 := field32 buf (eip.offset + 16)

/-- A `vm_map_apple_protected(map, start, end, crypto_backing_offset, ...)` call. -/
structure AppleProtect where
  start : UInt64
  finish : UInt64
  backingOffset : UInt64
deriving DecidableEq, Repr

/-- What `set_code_unprotect` reads besides the image: whether `map` is
`VM_MAP_NULL`, what setting up the decrypter returns (`LOAD_SUCCESS`, or the
`LOAD_FAILURE`, `LOAD_DECRYPTFAIL` or `LOAD_RESOURCE` of its failures), and
which calls of `vm_map_apple_protected` succeed. -/
structure UnprotectEnv where
  mapNull : Bool
  decrypter : LoadReturn
  protect : AppleProtect → Bool

/-- `map_offset` for the covering segment `seg`: `vmaddr + cryptoff - fileoff`
in the width of the segment's fields, plus `slide`. -/
def remapOffset (buf : List UInt8) (slide : Int64) (cryptoff : UInt32) (seg : LoadCommand) : UInt64 :=
  if seg.cmd = lcSegment64 then
    field64 buf (seg.offset + 24) + cryptoff.toUInt64 - field64 buf (seg.offset + 40) + slide.toUInt64
  else (field32 buf (seg.offset + 24) + cryptoff - field32 buf (seg.offset + 32)).toUInt64 + slide.toUInt64

/-- `set_code_unprotect(eip, addr, map, slide, vp, macho_offset, ...)` on the
image `buf`: the `vm_map_apple_protected` calls it makes and what it returns. -/
def setCodeUnprotect (buf : List UInt8) (env : UnprotectEnv) (slide machoOffset : Int64) (eip : LoadCommand) :
    List AppleProtect × LoadReturn :=
  let cryptoff := cryptoffOf buf eip
  let cryptsize := cryptsizeOf buf eip
  let cryptid := cryptidOf buf eip
  if eip.cmdsize.toNat < encryptionInfoCommandSize then ([], .badMacho)
  -- not encrypted, just an empty load command
  else if cryptid = 0 then ([], .success)
  else if cryptid ≠ 1 ∧ cryptid ≠ 0x10 then ([], .badMacho)
  else if env.mapNull then ([], .success)
  else if env.decrypter ≠ .success then ([], env.decrypter)
  else
    match (setCodeUnprotectRescan buf cryptoff cryptsize).find? (segmentCovers buf cryptoff cryptsize) with
    | none => ([], .badMacho)
    | some seg =>
      let start := remapOffset buf slide cryptoff seg
      let call : AppleProtect := ⟨start, start + cryptsize.toUInt64, machoOffset.toUInt64 + cryptoff.toUInt64⟩
      ([call], if env.protect call then .success else .protect)

/-- The test on a 64-bit segment: it starts at or below `cryptoff`, and its
end is at least the sum of `cryptoff` and `cryptsize` taken modulo `2 ^ 32`. -/
theorem segmentCovers_segment64_iff {buf : List UInt8} {cryptoff cryptsize : UInt32} {lc : LoadCommand}
    (segment : lc.cmd = lcSegment64) (noWrap : (segmentFileoff buf lc).toNat + (segmentFilesize buf lc).toNat < 2 ^ 64) :
    segmentCovers buf cryptoff cryptsize lc = true ↔ (segmentFileoff buf lc).toNat ≤ cryptoff.toNat ∧
      (cryptoff.toNat + cryptsize.toNat) % 2 ^ 32 ≤ (segmentFileoff buf lc).toNat + (segmentFilesize buf lc).toNat := by
  simp only [segmentFileoff, segmentFilesize, if_pos segment] at noWrap ⊢
  simp only [segmentCovers, if_pos segment, Bool.and_eq_true, decide_eq_true_eq, UInt64.le_iff_toNat_le,
    UInt32.toNat_toUInt64, UInt32.toNat_add, UInt64.toNat_add, Nat.mod_eq_of_lt noWrap]

/-- Where the sum does not wrap, a 64-bit segment the test accepts holds the
whole encrypted range. -/
theorem segmentCovers_contains {buf : List UInt8} {cryptoff cryptsize : UInt32} {lc : LoadCommand}
    (segment : lc.cmd = lcSegment64) (noWrap : (segmentFileoff buf lc).toNat + (segmentFilesize buf lc).toNat < 2 ^ 64)
    (covers : segmentCovers buf cryptoff cryptsize lc = true) (fits : cryptoff.toNat + cryptsize.toNat < 2 ^ 32) :
    (segmentFileoff buf lc).toNat ≤ cryptoff.toNat ∧
      cryptoff.toNat + cryptsize.toNat ≤ (segmentFileoff buf lc).toNat + (segmentFilesize buf lc).toNat := by
  obtain ⟨starts, ends⟩ := (segmentCovers_segment64_iff segment noWrap).mp covers
  rw [Nat.mod_eq_of_lt fits] at ends
  exact ⟨starts, ends⟩

/-- The rescan takes the first command when it is a segment the test accepts. -/
theorem setCodeUnprotectRescan_first {buf : List UInt8} {cryptoff cryptsize : UInt32} (commands : 0 < ncmds buf)
    (covers : segmentCovers buf cryptoff cryptsize (loadCommandAt buf (machHeaderSz buf)) = true) :
    (setCodeUnprotectRescan buf cryptoff cryptsize).find? (segmentCovers buf cryptoff cryptsize) =
      some (loadCommandAt buf (machHeaderSz buf)) := by
  obtain ⟨n, more⟩ := Nat.exists_eq_succ_of_ne_zero (Nat.pos_iff_ne_zero.mp commands)
  simp [setCodeUnprotectRescan, more, rescanLoop, covers]

/-- For an encrypted command, a map and a decrypter, `set_code_unprotect`
remaps `cryptsize` bytes of the first command, a 64-bit segment, whenever
the segment starts at or below `cryptoff` and ends at or past
`(cryptoff + cryptsize) mod 2 ^ 32`, however far past the segment
`cryptoff + cryptsize` lies. -/
theorem setCodeUnprotect_wrapped_range {buf : List UInt8} {env : UnprotectEnv} {slide machoOffset : Int64}
    {eip : LoadCommand} (sized : encryptionInfoCommandSize ≤ eip.cmdsize.toNat)
    (encrypted : cryptidOf buf eip = 1 ∨ cryptidOf buf eip = 0x10) (mapped : env.mapNull = false)
    (decrypter : env.decrypter = .success) (commands : 0 < ncmds buf)
    (segment : (loadCommandAt buf (machHeaderSz buf)).cmd = lcSegment64)
    (noWrap : (segmentFileoff buf (loadCommandAt buf (machHeaderSz buf))).toNat +
      (segmentFilesize buf (loadCommandAt buf (machHeaderSz buf))).toNat < 2 ^ 64)
    (starts : (segmentFileoff buf (loadCommandAt buf (machHeaderSz buf))).toNat ≤ (cryptoffOf buf eip).toNat)
    (wrapped : ((cryptoffOf buf eip).toNat + (cryptsizeOf buf eip).toNat) % 2 ^ 32 ≤
      (segmentFileoff buf (loadCommandAt buf (machHeaderSz buf))).toNat +
        (segmentFilesize buf (loadCommandAt buf (machHeaderSz buf))).toNat) :
    let start := remapOffset buf slide (cryptoffOf buf eip) (loadCommandAt buf (machHeaderSz buf))
    (setCodeUnprotect buf env slide machoOffset eip).1 =
      [⟨start, start + (cryptsizeOf buf eip).toUInt64, machoOffset.toUInt64 + (cryptoffOf buf eip).toUInt64⟩] := by
  intro start
  have covers := (segmentCovers_segment64_iff segment noWrap).mpr ⟨starts, wrapped⟩
  have notZero : cryptidOf buf eip ≠ 0 := by
    rcases encrypted with one | null
    · rw [one]
      decide
    · rw [null]
      decide
  have known : ¬ (cryptidOf buf eip ≠ 1 ∧ cryptidOf buf eip ≠ 0x10) := by
    rintro ⟨notOne, notNull⟩
    rcases encrypted with one | null
    · exact notOne one
    · exact notNull null
  unfold setCodeUnprotect
  simp only [if_neg (Nat.not_lt.mpr sized), if_neg notZero, if_neg known, mapped, decrypter, Bool.false_eq_true,
    if_false, ne_eq, not_true_eq_false, setCodeUnprotectRescan_first commands covers]
  rfl

/-- A 64-bit image with a segment of 16 KiB at file offset 0 and an
`LC_ENCRYPTION_INFO_64` command with `cryptoff = 0x1000` and
`cryptsize = 0xfffff000`, whose sum wraps to 0. -/
def wrappedCryptImage : List UInt8 :=
  leBytes mhMagic64 ++ leBytes 0x0100000c ++ leBytes 0 ++ leBytes 2 ++ leBytes 2 ++ leBytes 96 ++
    leBytes 0 ++ leBytes 0 ++
  leBytes lcSegment64 ++ leBytes 72 ++ List.replicate 16 0 ++ leBytes64 0x100000000 ++ leBytes64 0x4000 ++
    leBytes64 0 ++ leBytes64 0x4000 ++ leBytes 5 ++ leBytes 5 ++ leBytes 0 ++ leBytes 0 ++
  leBytes lcEncryptionInfo64 ++ leBytes 24 ++ leBytes 0x1000 ++ leBytes 0xfffff000 ++ leBytes 1 ++ leBytes 0

theorem setCodeUnprotect_wrapped_range_past_segment :
    let env : UnprotectEnv := ⟨false, .success, fun _ => true⟩
    let eip := loadCommandAt wrappedCryptImage 104
    let seg := loadCommandAt wrappedCryptImage (machHeaderSz wrappedCryptImage)
    (segmentFileoff wrappedCryptImage seg).toNat + (segmentFilesize wrappedCryptImage seg).toNat <
        (cryptoffOf wrappedCryptImage eip).toNat + (cryptsizeOf wrappedCryptImage eip).toNat ∧
      (setCodeUnprotect wrappedCryptImage env 0 0 eip).1 =
        [⟨0x100001000, 0x200000000, 0x1000⟩] := by
  intro env eip seg
  have run := @setCodeUnprotect_wrapped_range wrappedCryptImage env 0 0 eip (by decide +kernel)
    (Or.inl (by decide +kernel)) rfl rfl (by decide +kernel) (by decide +kernel) (by decide +kernel)
    (by decide +kernel) (by decide +kernel)
  refine ⟨by decide +kernel, ?_⟩
  rw [run]
  decide +kernel

end Xnu.MachO
