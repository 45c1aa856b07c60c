import Xnu.Lib.Bytes

namespace Xnu.CodeSign

/-! The code-signature parsers of `bsd/kern/ubc_subr.c`: `cs_validate_blob`,
`cs_validate_codedirectory`, `cs_validate_csblob`, `csblob_find_blob_bytes`,
`find_special_slot` and `hashes`, and the page lookup of `cs_validate_hash`.
The signature is a list of bytes and a pointer into it is a position; the
addresses of a kernel buffer plus 32-bit offsets stay far below `2^64`, so
pointer arithmetic does not wrap, while the `uint32_t` sums of the source keep
their width. Fields are big-endian, as `ntohl` reads them; a field past the
end of the buffer reads as 0, which the checks before every read rule out. -/

/-- `CSMAGIC_CODEDIRECTORY`. -/
def csmagicCodedirectory : UInt32 := 0xfade0c02

/-- `CSMAGIC_EMBEDDED_SIGNATURE`. -/
def csmagicEmbeddedSignature : UInt32 := 0xfade0cc0

/-- `CSMAGIC_EMBEDDED_ENTITLEMENTS`. -/
def csmagicEmbeddedEntitlements : UInt32 := 0xfade7171

/-- `CS_SUPPORTSSCATTER`. -/
def csSupportsscatter : UInt32 := 0x20100

/-- `CS_SUPPORTSTEAMID`. -/
def csSupportsteamid : UInt32 := 0x20200

/-- `CS_SUPPORTSLINKAGE`. -/
def csSupportslinkage : UInt32 := 0x20600

/-- `CSSLOT_CODEDIRECTORY`. -/
def csslotCodedirectory : UInt32 := 0

/-- `CSSLOT_ENTITLEMENTS`. -/
def csslotEntitlements : UInt32 := 5

/-- `CSSLOT_ALTERNATE_CODEDIRECTORIES`. -/
def csslotAlternateCodedirectories : UInt32 := 0x1000

/-- `CSSLOT_ALTERNATE_CODEDIRECTORY_LIMIT`. -/
def csslotAlternateCodedirectoryLimit : UInt32 := csslotAlternateCodedirectories + 5

/-- `PAGE_SHIFT_4K`. -/
def pageShift4k : UInt8 := 12

/-- `sizeof(CS_CodeDirectory)`: the structure is packed. -/
def cdSize : Nat := 108

/-- `sizeof(CS_GenericBlob)`. -/
def genericBlobSize : Nat := 8

/-- `sizeof(CS_SuperBlob)`. -/
def superBlobSize : Nat := 12

/-- `sizeof(CS_BlobIndex)`. -/
def blobIndexSize : Nat := 8

/-- `sizeof(SC_Scatter)`. -/
def scatterSize : Nat := 24

/-- A big-endian `uint32_t` field at `pos`. -/
def field32 (buf : List UInt8) (pos : Nat) : UInt32 := (readWord buf pos).getD 0

/-- A `uint8_t` field at `pos`. -/
def field8 (buf : List UInt8) (pos : Nat) : UInt8 := buf.getD pos 0

/-- The fields of a `CS_CodeDirectory` the parsers read. -/
structure CodeDirectory where
  magic : UInt32
  length : UInt32
  version : UInt32
  hashOffset : UInt32
  identOffset : UInt32
  nSpecialSlots : UInt32
  nCodeSlots : UInt32
  codeLimit : UInt32
  hashSize : UInt8
  hashType : UInt8
  pageSize : UInt8
  scatterOffset : UInt32
  teamOffset : UInt32
  linkageHashType : UInt8
  linkageOffset : UInt32
  linkageSize : UInt32

/-- The code directory at `cd`, at the offsets of the packed structure. -/
def readCodeDirectory (buf : List UInt8) (cd : Nat) : CodeDirectory where
  magic := field32 buf cd
  length := field32 buf (cd + 4)
  version := field32 buf (cd + 8)
  hashOffset := field32 buf (cd + 16)
  identOffset := field32 buf (cd + 20)
  nSpecialSlots := field32 buf (cd + 24)
  nCodeSlots := field32 buf (cd + 28)
  codeLimit := field32 buf (cd + 32)
  hashSize := field8 buf (cd + 36)
  hashType := field8 buf (cd + 37)
  pageSize := field8 buf (cd + 39)
  scatterOffset := field32 buf (cd + 44)
  teamOffset := field32 buf (cd + 48)
  linkageHashType := field8 buf (cd + 96)
  linkageOffset := field32 buf (cd + 100)
  linkageSize := field32 buf (cd + 104)

/-- `struct cs_hash`: the type code, `cs_size`, the size of the hash as the
code directory stores it (it may be truncated), and `cs_digest_size`, the size
of the native digest. -/
structure CsHash where
  csType : UInt8
  csSize : Nat
  csDigestSize : Nat
deriving DecidableEq, Repr

/-- `cs_find_md(type)`, with `CRYPTO_SHA2`. -/
def csFindMd (type : UInt8) : Option CsHash :=
  if type = 1 then some ⟨1, 20, 20⟩
  else if type = 2 then some ⟨2, 32, 32⟩
  else if type = 3 then some ⟨3, 20, 32⟩
  else if type = 4 then some ⟨4, 48, 48⟩
  else none

/-- `hashPriorities`: `CS_HASHTYPE_SHA1`, `CS_HASHTYPE_SHA256_TRUNCATED`,
`CS_HASHTYPE_SHA256`, `CS_HASHTYPE_SHA384`, worst first. -/
def hashPriorities : List UInt8 := [1, 3, 2, 4]

/-- `hash_rank(cd)`: one past the position of the hash type in
`hashPriorities`, and 0 for a type it does not list. -/
def hashRank (hashType : UInt8) : Nat :=
  match hashPriorities.idxOf? hashType with
  | some n => n + 1
  | none => 0

/-- `cs_valid_range(start, end, lower_bound, upper_bound)`. -/
def csValidRange (start stop lower upper : Nat) : Bool :=
  !(upper < lower || stop < start) && !(start < lower || stop > upper)

/-- `memchr(ptr, 0, n) != NULL`. -/
def memchrNul (buf : List UInt8) (ptr n : Nat) : Bool :=
  ((buf.drop ptr).take n).contains 0

/-- The scatter loop of `cs_validate_codedirectory` from the entry at
`scatter`, with `nPages` the pages counted so far: every entry up to the
zero-count one ends inside the code directory, which ends at `cdEnd`, and the
count does not overflow. -/
def scatterValid (buf : List UInt8) (cdEnd scatter : Nat) (nPages : UInt32) : Bool :=
  if scatter + scatterSize > cdEnd then false
  else
    let scount := field32 buf scatter
    if scount = 0 then true
    else if nPages + scount < nPages then false
    else scatterValid buf cdEnd (scatter + scatterSize) (nPages + scount)
termination_by cdEnd - scatter
decreasing_by
  have entry : scatterSize = 24 := rfl
  omega

/-- `cs_validate_codedirectory(cd, length) == 0` for the code directory at
`pos`, on a machine whose `PAGE_SHIFT` is `pageShift`. -/
def csValidateCodedirectory (pageShift : UInt8) (buf : List UInt8) (pos length : Nat) : Bool :=
  let cd := readCodeDirectory buf pos
  if length < cdSize then false
  else if cd.magic ≠ csmagicCodedirectory then false
  else if cd.pageSize < pageShift4k || cd.pageSize > pageShift then false
  else match csFindMd cd.hashType with
  | none => false
  | some hashtype =>
    if cd.hashSize.toNat ≠ hashtype.csSize then false
    else if length < cd.hashOffset.toNat then false
    -- the special slots fit in front of `hashOffset`, the code slots after it
    else if cd.hashOffset.toNat / hashtype.csSize < cd.nSpecialSlots.toNat then false
    else if (length - cd.hashOffset.toNat) / hashtype.csSize < cd.nCodeSlots.toNat then false
    else if cd.version ≥ csSupportsscatter && cd.scatterOffset ≠ 0 &&
        (length < cd.scatterOffset.toNat ||
          !scatterValid buf (pos + length) (pos + cd.scatterOffset.toNat) 0) then false
    else if length < cd.identOffset.toNat then false
    else if cd.identOffset ≠ 0 &&
        !memchrNul buf (pos + cd.identOffset.toNat) (length - cd.identOffset.toNat) then false
    else if cd.version ≥ csSupportsteamid && cd.teamOffset ≠ 0 &&
        (length < cd.teamOffset.toNat ||
          !memchrNul buf (pos + cd.teamOffset.toNat) (length - cd.teamOffset.toNat)) then false
    else if cd.version ≥ csSupportslinkage && cd.linkageHashType ≠ 0 &&
        (let ptr := pos + cd.linkageOffset.toNat
         let ptrEnd := ptr + cd.linkageSize.toNat
         ptrEnd < ptr || ptr < pos || ptrEnd > pos + length) then false
    else true

/-- `ntohl(blob->length)` of the blob at `pos`. -/
def blobLength (buf : List UInt8) (pos : Nat) : Nat := (field32 buf (pos + 4)).toNat

/-- `cs_validate_blob(blob, length) == 0` for the blob at `pos`. -/
def csValidateBlob (buf : List UInt8) (pos length : Nat) : Bool :=
  !(length < genericBlobSize || length < blobLength buf pos)

/-- The position of `sb->index[n]` for the superblob at 0. -/
def blobIndexPos (n : Nat) : Nat := superBlobSize + n * blobIndexSize

/-- `ntohl(sb->index[n].type)`. -/
def blobIndexType (buf : List UInt8) (n : Nat) : UInt32 := field32 buf (blobIndexPos n)

/-- `ntohl(sb->index[n].offset)`. -/
def blobIndexOffset (buf : List UInt8) (n : Nat) : Nat := (field32 buf (blobIndexPos n + 4)).toNat

/-- What the loop of `cs_validate_csblob` carries from one index entry to the
next: `best_cd`, `best_rank` and `*rentitlements`. -/
structure CsblobScan where
  bestCd : Option Nat
  bestRank : Nat
  entitlements : Option Nat

/-- One turn of the loop of `cs_validate_csblob` over the index entries of a
superblob of `length` bytes; `none` where it returns `EBADEXEC`. -/
def csblobIndexStep (pageShift : UInt8) (buf : List UInt8) (length : Nat) (scan : CsblobScan)
    (n : Nat) : Option CsblobScan :=
  let type := blobIndexType buf n
  let offset := blobIndexOffset buf n
  if length < offset then none
  else if !csValidateBlob buf offset (length - offset) then none
  else
    let subLength := blobLength buf offset
    if type = csslotCodedirectory ||
        (type ≥ csslotAlternateCodedirectories && type < csslotAlternateCodedirectoryLimit) then
      if !csValidateCodedirectory pageShift buf offset subLength then none
      else
        let rank := hashRank (readCodeDirectory buf offset).hashType
        if scan.bestCd.isNone || rank > scan.bestRank then
          some { scan with bestCd := some offset, bestRank := rank }
        -- a second code directory of one hash type is refused
        else if scan.bestCd.isSome && rank = scan.bestRank then none
        else some scan
    else if type = csslotEntitlements then
      if field32 buf offset ≠ csmagicEmbeddedEntitlements then none
      else if scan.entitlements.isSome then none
      else some { scan with entitlements := some offset }
    else some scan

/-- `cs_validate_csblob(addr, blob_size, &rcd, &rentitlements)` for a
signature at 0 of `blobSize` bytes: the positions of the code directory and of
the entitlements blob when it returns 0, `none` for `EBADEXEC`. -/
def csValidateCsblob (pageShift : UInt8) (buf : List UInt8) (blobSize : Nat) :
    Option (Nat × Option Nat) :=
  if !csValidateBlob buf 0 blobSize then none
  else
    let length := blobLength buf 0
    if field32 buf 0 = csmagicEmbeddedSignature then
      if length < superBlobSize then none
      else
        let count := (field32 buf 8).toNat
        if (length - superBlobSize) / blobIndexSize < count then none
        else
          match (List.range count).foldlM (csblobIndexStep pageShift buf length) ⟨none, 0, none⟩ with
          | none => none
          | some scan => scan.bestCd.map fun cd => (cd, scan.entitlements)
    else if field32 buf 0 = csmagicCodedirectory then
      if csValidateCodedirectory pageShift buf 0 length then some (0, none) else none
    else none

/-- The loop of `csblob_find_blob_bytes` over the index entries `ns`. The
`size_t` difference `length - sizeof(CS_GenericBlob)` wraps for a buffer
shorter than a blob header, and then no offset exceeds it. -/
def findBlobIndex (buf : List UInt8) (length : Nat) (type magic : UInt32) : List Nat → Option Nat
  | [] => none
  | n :: ns =>
    if blobIndexType buf n ≠ type then findBlobIndex buf length type magic ns
    else
      let offset := blobIndexOffset buf n
      if length ≥ genericBlobSize && length - genericBlobSize < offset then none
      else if field32 buf offset ≠ magic then findBlobIndex buf length type magic ns
      else some offset

/-- `csblob_find_blob_bytes(addr, length, type, magic)` for a signature at 0. -/
def csblobFindBlobBytes (buf : List UInt8) (length : Nat) (type magic : UInt32) : Option Nat :=
  if field32 buf 0 = csmagicEmbeddedSignature then
    findBlobIndex buf length type magic (List.range (field32 buf 8).toNat)
  else if type = csslotCodedirectory && field32 buf 0 = csmagicCodedirectory &&
      magic = csmagicCodedirectory then some 0
  else none

/-- `find_special_slot(cd, slotsize, slot)`; the position is an integer, as a
pointer below the buffer is one the source can form. -/
def findSpecialSlot (buf : List UInt8) (cd slotsize : Nat) (slot : UInt32) : Option Int :=
  let dir := readCodeDirectory buf cd
  if dir.nSpecialSlots < slot || slot = 0 then none
  else some ((cd + dir.hashOffset.toNat : Nat) - (slotsize * slot.toNat : Nat))

/-- The scatter walk of `hashes` from the entry at `scatter`, with
`hashindex` the slots of the entries before it and `sbase` the base of the
entry before it. -/
def scatterHash (buf : List UInt8) (cd : Nat) (page : UInt32) (hashLen lower upper : Nat)
    (scatter : Nat) (hashindex sbase : UInt32) : Option Nat :=
  let dir := readCodeDirectory buf cd
  if scatter > cd + dir.length.toNat then none
  else
    let scount := field32 buf scatter
    let newBase := field32 buf (scatter + 4)
    if scount = 0 then none
    -- the entries are ordered by base
    else if hashindex > 0 && newBase ≤ sbase then none
    else if newBase > page then none
    else if newBase + scount ≥ page then
      let base := cd + dir.hashOffset.toNat + hashindex.toNat * hashLen
      let top := base + scount.toNat * hashLen
      if !csValidRange base top lower upper || hashindex > dir.nCodeSlots then none
      else some (base + (page - newBase).toNat * hashLen)
    else scatterHash buf cd page hashLen lower upper (scatter + scatterSize) (hashindex + scount) newBase
termination_by cd + (readCodeDirectory buf cd).length.toNat + 1 - scatter
decreasing_by
  have inside := Nat.le_of_not_lt ‹¬scatter > cd + dir.length.toNat›
  have entry : scatterSize = 24 := rfl
  simp only [dir] at inside
  omega

/-- `hashes(cd, page, hash_len, lower_bound, upper_bound)`: the position of
the hash of `page`, or `none` for `NULL`. The `assert`s are not compiled into
the kernel and are left out. -/
def hashes (buf : List UInt8) (cd : Nat) (page : UInt32) (hashLen lower upper : Nat) : Option Nat :=
  let dir := readCodeDirectory buf cd
  let hash :=
    if dir.version ≥ csSupportsscatter && dir.scatterOffset ≠ 0 then
      scatterHash buf cd page hashLen lower upper (cd + dir.scatterOffset.toNat) 0 0
    else
      let base := cd + dir.hashOffset.toNat
      let top := base + dir.nCodeSlots.toNat * hashLen
      if !csValidRange base top lower upper || page > dir.nCodeSlots then none
      else some (base + page.toNat * hashLen)
  hash.bind fun hash => if csValidRange hash (hash + hashLen) lower upper then some hash else none

/-- `csb_end_offset` as `cs_blob_init` sets it: `codeLimit` rounded up to a
whole page of the code directory. -/
def csbEndOffset (dir : CodeDirectory) : UInt64 :=
  let hashPagemask : UInt64 := ((1 : UInt32) <<< dir.pageSize.toUInt32 - 1).toUInt64
  (dir.codeLimit.toUInt64 + hashPagemask) &&& ~~~hashPagemask

/-- `csb_start_offset` as `cs_blob_init` sets it: the first page of the first
scatter entry. -/
def csbStartOffset (buf : List UInt8) (cd : Nat) : UInt64 :=
  let dir := readCodeDirectory buf cd
  if dir.version ≥ csSupportsscatter && dir.scatterOffset ≠ 0 then
    (field32 buf (cd + dir.scatterOffset.toNat + 4)).toUInt64 * ((1 : UInt32) <<< dir.pageSize.toUInt32).toUInt64
  else 0

/-- The expected hash `cs_validate_hash` takes for the page at `offset` of a
blob of `memSize` bytes whose code directory is at `cd`: `none` where the
blob does not cover the page or `hashes` finds no hash. A negative `off_t`
lies below `csb_start_offset` and is left out; the panics on an unknown hash
type and on a misaligned offset are `none` here. -/
def csValidateHashLookup (buf : List UInt8) (cd memSize offset : Nat) : Option Nat :=
  let dir := readCodeDirectory buf cd
  match csFindMd dir.hashType with
  | none => none
  | some hashtype =>
    if offset < (csbStartOffset buf cd).toNat || offset ≥ (csbEndOffset dir).toNat then none
    else if offset % 2 ^ dir.pageSize.toNat ≠ 0 then none
    else hashes buf cd (offset >>> dir.pageSize.toNat).toUInt32 hashtype.csSize 0 memSize

end Xnu.CodeSign
