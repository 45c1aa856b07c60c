import Xnu.Lib.Bytes

namespace Xnu.MachO

/-! The walk over the load commands in `parse_machfile` of
`bsd/kern/mach_loader.c`: the header checks that bound the command area, the
loop of each of the four passes with its prevalidation of every
`struct load_command`, the rescan of `set_code_unprotect`, and the checks of
`load_segment`. The commands are a buffer of bytes read in host (little-endian)
order; the header and the commands are one image, read once. What each
handler does past its size check (mapping a segment, loading the thread
state, checking the signature) is an outcome the walk is given, any one for
each pass and command. -/

/-- `MH_MAGIC_64`. -/
def mhMagic64 : UInt32 := 0xfeedfacf

/-- `MH_CIGAM_64`. -/
def mhCigam64 : UInt32 := 0xcffaedfe

/-- `LC_SEGMENT`. -/
def lcSegment : UInt32 := 0x1

/-- `LC_UNIXTHREAD`. -/
def lcUnixthread : UInt32 := 0x5

/-- `LC_SEGMENT_64`. -/
def lcSegment64 : UInt32 := 0x19

/-- `LC_UUID`. -/
def lcUuid : UInt32 := 0x1b

/-- `LC_CODE_SIGNATURE`. -/
def lcCodeSignature : UInt32 := 0x1d

/-- `LC_ENCRYPTION_INFO`. -/
def lcEncryptionInfo : UInt32 := 0x21

/-- `LC_VERSION_MIN_MACOSX`. -/
def lcVersionMinMacosx : UInt32 := 0x24

/-- `LC_VERSION_MIN_IPHONEOS`. -/
def lcVersionMinIphoneos : UInt32 := 0x25

/-- `LC_MAIN`. -/
def lcMain : UInt32 := 0x80000028

/-- `LC_ENCRYPTION_INFO_64`. -/
def lcEncryptionInfo64 : UInt32 := 0x2c

/-- `LC_VERSION_MIN_TVOS`. -/
def lcVersionMinTvos : UInt32 := 0x2f

/-- `LC_VERSION_MIN_WATCHOS`. -/
def lcVersionMinWatchos : UInt32 := 0x30

/-- `LC_BUILD_VERSION`. -/
def lcBuildVersion : UInt32 := 0x32

/-- `sizeof(struct load_command)`. -/
def loadCommandSize : Nat := 8

/-- `sizeof(struct segment_command)`. -/
def segmentCommandSize : Nat := 56

/-- `sizeof(struct segment_command_64)`. -/
def segmentCommand64Size : Nat := 72

/-- `sizeof(struct section)`. -/
def sectionSize : Nat := 68

/-- `sizeof(struct section_64)`. -/
def section64Size : Nat := 80

/-- `INT_MAX`. -/
def intMax : Nat := 2 ^ 31 - 1

/-- A 32-bit field at `pos`, in host order. -/
def field32 (buf : List UInt8) (pos : Nat) : UInt32 := (readWordLE buf pos).getD 0

/-- A 64-bit field at `pos`, in host order. -/
def field64 (buf : List UInt8) (pos : Nat) : UInt64 :=
  (field32 buf pos).toUInt64 ||| ((field32 buf (pos + 4)).toUInt64 <<< 32)

/-- The size of the Mach-O header, from its magic. -/
def machHeaderSz (buf : List UInt8) : Nat :=
  if field32 buf 0 = mhMagic64 || field32 buf 0 = mhCigam64 then 32 else 28

/-- `header->ncmds`. -/
def ncmds (buf : List UInt8) : Nat := (field32 buf 16).toNat

/-- The header checks of `parse_machfile` on the command area: `cmds_size`,
the header and `sizeofcmds` bytes, must lie inside the Mach-O and its
page-rounded size must fit an `int`. `os_add_overflow` on a `size_t` sum of
two 32-bit values never fires. -/
def cmdsSizeOf (buf : List UInt8) (machoSize pageSize : Nat) : Option Nat :=
  let cmdsSize := machHeaderSz buf + (field32 buf 20).toNat
  let allocSize := (cmdsSize + pageSize - 1) / pageSize * pageSize
  if cmdsSize > machoSize || allocSize > intMax then none else some cmdsSize

/-- A load command in the buffer: where it starts, its `cmd` and `cmdsize`. -/
structure LoadCommand where
  offset : Nat
  cmd : UInt32
  cmdsize : UInt32
deriving DecidableEq, Repr

/-- The `struct load_command` at `offset`. -/
def loadCommandAt (buf : List UInt8) (offset : Nat) : LoadCommand :=
  ⟨offset, field32 buf offset, field32 buf (offset + 4)⟩

/-- The `while (ncmds--)` loop of one pass from `offset`: the commands handed
to the switch, and whether the loop ran to its end. `act` is the switch,
`false` where `ret` is not `LOAD_SUCCESS`. -/
def commandLoop (buf : List UInt8) (cmdsSize : Nat) (act : LoadCommand → Bool) :
    Nat → Nat → List LoadCommand × Bool
  | _, 0 => ([], true)
  | offset, n + 1 =>
    if offset + loadCommandSize > cmdsSize then ([], false)
    else
      let lc := loadCommandAt buf offset
      if offset + lc.cmdsize.toNat ≥ 2 ^ 64 || lc.cmdsize.toNat < loadCommandSize ||
          offset + lc.cmdsize.toNat > cmdsSize then ([], false)
      else if !act lc then ([lc], false)
      else
        let rest := commandLoop buf cmdsSize act (offset + lc.cmdsize.toNat) n
        (lc :: rest.1, rest.2)

/-- The `for (pass ...)` loop over `passes`: before each pass the checks at its
top (`preflight`), then the walk; it stops at the first failure. The commands
each pass hands to the switch, and whether every pass succeeded. -/
def passLoop (buf : List UInt8) (cmdsSize : Nat) (preflight : Nat → Bool) (act : Nat → LoadCommand → Bool) :
    List Nat → List (Nat × List LoadCommand) × Bool
  | [] => ([], true)
  | pass :: passes =>
    if !preflight pass then ([], false)
    else
      let walk := commandLoop buf cmdsSize (act pass) (machHeaderSz buf) (ncmds buf)
      if !walk.2 then ([(pass, walk.1)], false)
      else
        let rest := passLoop buf cmdsSize preflight act passes
        ((pass, walk.1) :: rest.1, rest.2)

/-- The four passes of `parse_machfile` over the commands. -/
def parseMachfilePasses (buf : List UInt8) (cmdsSize : Nat) (preflight : Nat → Bool)
    (act : Nat → LoadCommand → Bool) : List (Nat × List LoadCommand) × Bool :=
  passLoop buf cmdsSize preflight act [0, 1, 2, 3]

/-- The size check the switch makes on a segment command in every pass. -/
def segmentSizeOk (lc : LoadCommand) : Bool :=
  if lc.cmd = lcSegment then lc.cmdsize.toNat ≥ segmentCommandSize
  else if lc.cmd = lcSegment64 then lc.cmdsize.toNat ≥ segmentCommand64Size
  else true

/-- The switch of `parse_machfile`: the size check of a segment command, which
comes before the pass is tested and fails the load, and the outcome of the
rest, given by `handle`. -/
def parseSwitch (handle : Nat → LoadCommand → Bool) (pass : Nat) (lc : LoadCommand) : Bool :=
  segmentSizeOk lc && handle pass lc

/-- The size of the structure through which pass `pass` at depth `depth` reads
the command, where the size check of its handler lets it: the segment
commands in every pass, `load_unixthread`, `load_main`, `load_uuid` and
`load_code_signature` in pass 1, `set_code_unprotect` in pass 3,
`load_version` and the build version in pass 0. -/
def structRead (cmdsSize depth pass : Nat) (lc : LoadCommand) : Option Nat :=
  let size := lc.cmdsize.toNat
  if lc.cmd = lcSegment then if size ≥ segmentCommandSize then some segmentCommandSize else none
  else if lc.cmd = lcSegment64 then if size ≥ segmentCommand64Size then some segmentCommand64Size else none
  else if lc.cmd = lcUnixthread then if pass = 1 && size ≥ 8 then some 8 else none
  else if lc.cmd = lcMain then if pass = 1 && depth = 1 && size ≥ 24 then some 24 else none
  else if lc.cmd = lcUuid then
    if pass = 1 && depth = 1 && size ≥ 24 && lc.offset + 24 ≤ cmdsSize then some 24 else none
  else if lc.cmd = lcCodeSignature then if pass = 1 && size = 16 then some 16 else none
  else if lc.cmd = lcEncryptionInfo || lc.cmd = lcEncryptionInfo64 then
    if pass = 3 && size ≥ 20 then some 20 else none
  else if lc.cmd = lcVersionMinMacosx || lc.cmd = lcVersionMinIphoneos || lc.cmd = lcVersionMinWatchos ||
      lc.cmd = lcVersionMinTvos then
    if pass = 0 && depth = 1 && size ≥ 16 then some 16 else none
  else if lc.cmd = lcBuildVersion then if pass = 0 && depth = 1 && size ≥ 24 then some 24 else none
  else none

/-- The segment test of the rescan of `set_code_unprotect`: the segment's
file range covers `[cryptoff, cryptoff + cryptsize)`, in the widths of the
source. -/
def segmentCovers (buf : List UInt8) (cryptoff cryptsize : UInt32) (lc : LoadCommand) : Bool :=
  if lc.cmd = lcSegment64 then
    let fileoff := field64 buf (lc.offset + 40)
    let filesize := field64 buf (lc.offset + 48)
    fileoff ≤ cryptoff.toUInt64 && fileoff + filesize ≥ (cryptoff + cryptsize).toUInt64
  else if lc.cmd = lcSegment then
    let fileoff := field32 buf (lc.offset + 32)
    let filesize := field32 buf (lc.offset + 36)
    fileoff ≤ cryptoff && fileoff + filesize ≥ cryptoff + cryptsize
  else false

/-- The rescan loop of `set_code_unprotect` from `offset`, with no check: the
commands it reads, up to the first segment that covers the encrypted range. -/
def rescanLoop (buf : List UInt8) (covers : LoadCommand → Bool) : Nat → Nat → List LoadCommand
  | _, 0 => []
  | offset, n + 1 =>
    let lc := loadCommandAt buf offset
    if covers lc then [lc] else lc :: rescanLoop buf covers (offset + lc.cmdsize.toNat) n

/-- The rescan of `set_code_unprotect` for the encrypted range of `eip`, from
the header of the buffer. -/
def setCodeUnprotectRescan (buf : List UInt8) (cryptoff cryptsize : UInt32) : List LoadCommand :=
  rescanLoop buf (segmentCovers buf cryptoff cryptsize) (machHeaderSz buf) (ncmds buf)

/-- `segment_command_size` in `load_segment`. -/
def segmentSizeFor (lc : LoadCommand) : Nat :=
  if lc.cmd = lcSegment64 then segmentCommand64Size else segmentCommandSize

/-- `single_section_size` in `load_segment`. -/
def sectionSizeFor (lc : LoadCommand) : Nat :=
  if lc.cmd = lcSegment64 then section64Size else sectionSize

/-- `scp->fileoff`, widened by `widen_segment_command` for `LC_SEGMENT`. -/
def segmentFileoff (buf : List UInt8) (lc : LoadCommand) : UInt64 :=
  if lc.cmd = lcSegment64 then field64 buf (lc.offset + 40) else (field32 buf (lc.offset + 32)).toUInt64

/-- `scp->filesize`, widened for `LC_SEGMENT`. -/
def segmentFilesize (buf : List UInt8) (lc : LoadCommand) : UInt64 :=
  if lc.cmd = lcSegment64 then field64 buf (lc.offset + 48) else (field32 buf (lc.offset + 36)).toUInt64

/-- `scp->nsects`. -/
def segmentNsects (buf : List UInt8) (lc : LoadCommand) : UInt32 :=
  if lc.cmd = lcSegment64 then field32 buf (lc.offset + 64) else field32 buf (lc.offset + 48)

/-- The checks `load_segment` makes on a segment command before it maps
anything, with `macho_size` the size of the Mach-O: the command holds the
segment structure and its sections, and the file range of the segment lies
inside the Mach-O with no wrap. -/
def loadSegmentChecks (buf : List UInt8) (machoSize : Nat) (lc : LoadCommand) : Bool :=
  if lc.cmdsize.toNat < segmentSizeFor lc then false
  else
    let totalSectionSize := lc.cmdsize.toNat - segmentSizeFor lc
    let fileoff := segmentFileoff buf lc
    let filesize := segmentFilesize buf lc
    if fileoff + filesize < fileoff || (fileoff + filesize).toNat > machoSize then false
    else !(totalSectionSize / sectionSizeFor lc < (segmentNsects buf lc).toNat)

end Xnu.MachO
