import Xnu.Serialize.Serialize
import Xnu.Serialize.Unserialize

namespace Xnu.Serialize

/-! `OSSerialize::binarySerialize` on a stream made by `binaryWithCapacity`
and `setIndexed(true)`, as `IOUserServer` builds the out-of-line objects of
DriverKit messages. The stream keeps `indexData`, the word offset of every
object it writes; a collection's key is followed by a length word that
`endBinaryCollection` fills in, a string carries its NUL, a reference names
the referenced object's word offset, and the first word ends up holding the
number of objects above the signature `0xD4`. -/

/-- A binary `OSSerialize` with `indexData`. -/
structure OSSerializeIndexed where
  data : List UInt8
  tags : List Nat
  endCollection : Bool
  indexData : List Nat

/-- `binaryWithCapacity` then `setIndexed(true)`. -/
def OSSerializeIndexed.init : OSSerializeIndexed := ⟨kOSSerializeBinarySignature, [], true, []⟩

/-- `data` with `bytes` written over it from `pos` on. -/
def overwrite (data : List UInt8) (pos : Nat) (bytes : List UInt8) : List UInt8 :=
  data.take pos ++ bytes ++ data.drop (pos + bytes.length)

/-- `OSSerialize::addBinary(bits, size)`. -/
def OSSerializeIndexed.addBinary (s : OSSerializeIndexed) (bits : List UInt8) : Bool × OSSerializeIndexed :=
  if s.data.length + (bits.length + 3) / 4 * 4 ≥ 2 ^ 32 then (false, s)
  else (true, { s with data := s.data ++ bits ++ padding bits.length })

/-- `OSSerialize::addBinaryObject(o, key, bits, size, startCollection)` with
`indexData`: the object's word offset is recorded, and a collection
(`collection`) gets a second header word, zero until its length is known. -/
def OSSerializeIndexed.addBinaryObject (s : OSSerializeIndexed) (o : Nat) (key : UInt32) (bits : List UInt8)
    (collection : Bool) : Bool × OSSerializeIndexed :=
  let headerSize := if collection then 8 else 4
  let s := { s with tags := s.tags ++ [o], indexData := s.indexData ++ [s.data.length / 4] }
  if s.data.length + (bits.length + headerSize + 3) / 4 * 4 ≥ 2 ^ 32 then (false, s)
  else
    let key := if s.endCollection then key ||| kOSSerializeEndCollecton else key
    (true, { s with
      data := s.data ++ leBytes key ++ List.replicate (headerSize - 4) 0 ++ bits ++ padding (headerSize + bits.length)
      endCollection := false })

/-- `OSSerialize::endBinaryCollection(startCollection)`: the collection's
length in words, written after its key. -/
def OSSerializeIndexed.endBinaryCollection (s : OSSerializeIndexed) (startCollection : Nat) : OSSerializeIndexed :=
  if s.data.length ≤ startCollection then s
  else { s with data := overwrite s.data (startCollection + 4) (leBytes ((s.data.length - startCollection) / 4).toUInt32) }

/-- `binarySerialize(member)`, then `member->serialize(this)` once more. -/
def serializeRetryIndexed (serialize : Nat → OSSerializeIndexed → Option (Bool × OSSerializeIndexed)) (o : Nat)
    (s : OSSerializeIndexed) : Option (Bool × OSSerializeIndexed) :=
  match serialize o s with
  | none => none
  | some (true, s) => some (true, s)
  | some (false, s) => serialize o s

/-- The loop over an array's or a set's members. -/
def serializeMembersIndexed (serialize : Nat → OSSerializeIndexed → Option (Bool × OSSerializeIndexed))
    (count : Nat) : List Nat → Nat → OSSerializeIndexed → Option (Bool × OSSerializeIndexed)
  | [], _, s => some (true, s)
  | m :: rest, i, s =>
    match serializeRetryIndexed serialize m { s with endCollection := i + 1 == count } with
    | none => none
    | some (false, s) => some (false, s)
    | some (true, s) => serializeMembersIndexed serialize count rest (i + 1) s

/-- The loop over a dictionary's entries. -/
def serializeEntriesIndexed (serialize : Nat → OSSerializeIndexed → Option (Bool × OSSerializeIndexed))
    (count : Nat) : List (Nat × Nat) → Nat → OSSerializeIndexed → Option (Bool × OSSerializeIndexed)
  | [], _, s => some (true, s)
  | (key, value) :: rest, i, s =>
    match serialize key s with
    | none => none
    | some (false, s) => some (false, s)
    | some (true, s) =>
      match serializeRetryIndexed serialize value { s with endCollection := i + 1 == count } with
      | none => none
      | some (false, s) => some (false, s)
      | some (true, s) => serializeEntriesIndexed serialize count rest (i + 1) s

/-- A collection: its two header words, its members while `ok` holds, and
`endBinaryCollection` whatever they returned. -/
def serializeCollectionIndexed (s : OSSerializeIndexed) (o : Nat) (key : UInt32)
    (members : OSSerializeIndexed → Option (Bool × OSSerializeIndexed)) : Option (Bool × OSSerializeIndexed) :=
  let startCollection := s.data.length
  match s.addBinaryObject o key [] true with
  | (true, s) => (members s).map fun r => (r.1, r.2.endBinaryCollection startCollection)
  | (false, s) => some (false, s.endBinaryCollection startCollection)

/-- `OSSerialize::binarySerializeInternal` on an indexed stream. -/
def binarySerializeIndexedFuel (heap : List OSObject) :
    Nat → Nat → OSSerializeIndexed → Option (Bool × OSSerializeIndexed)
  | 0, _, _ => none
  | fuel + 1, o, s =>
    match s.tags.idxOf? o with
    | some tagIdx =>
      let key := kOSSerializeObject ||| (s.indexData.getD tagIdx 0).toUInt32
      let key := if s.endCollection then key ||| kOSSerializeEndCollecton else key
      some ({ s with endCollection := false }.addBinary (leBytes key))
    | none =>
      match heap[o]? with
      | none => none
      | some (.dictionary entries) =>
        serializeCollectionIndexed s o (kOSSerializeDictionary ||| entries.length.toUInt32)
          (serializeEntriesIndexed (binarySerializeIndexedFuel heap fuel) entries.length entries 0)
      | some (.array members) =>
        serializeCollectionIndexed s o (kOSSerializeArray ||| members.length.toUInt32)
          (serializeMembersIndexed (binarySerializeIndexedFuel heap fuel) members.length members 0)
      | some (.set members) =>
        serializeCollectionIndexed s o (kOSSerializeSet ||| members.length.toUInt32)
          (serializeMembersIndexed (binarySerializeIndexedFuel heap fuel) members.length members 0)
      | some (.number value size) =>
        some (s.addBinaryObject o (kOSSerializeNumber ||| size.toUInt32) (leBytes64 value) false)
      | some (.boolean b) =>
        some (s.addBinaryObject o (kOSSerializeBoolean ||| (if b then 1 else 0)) [] false)
      | some (.symbol str) =>
        some (s.addBinaryObject o (kOSSerializeSymbol ||| (str.length + 1).toUInt32) (str ++ [0]) false)
      | some (.string str) =>
        some (s.addBinaryObject o (kOSSerializeString ||| (str.length + 1).toUInt32) (str ++ [0]) false)
      | some (.data bytes) =>
        some (s.addBinaryObject o (kOSSerializeData ||| bytes.length.toUInt32) bytes false)

/-- `binaryWithCapacity`, `setIndexed(true)` and `binarySerialize(root)`:
after a successful walk the first word becomes the object count above the
indexed signature. -/
def binarySerializeIndexed (heap : List OSObject) (root : Nat) : Option (Bool × List UInt8) :=
  (binarySerializeIndexedFuel heap (heap.length + 1) root OSSerializeIndexed.init).map fun r =>
    if r.1 then
      (true, overwrite r.2.data 0
        (leBytes ((r.2.indexData.length.toUInt32 <<< 8) ||| kOSSerializeIndexedBinarySignature.toUInt32)))
    else (false, r.2.data)

/-- An array holding `true`, `false`, an empty data and `true` again, and a
one-character string: each is serialized in indexed mode with `true` returned.
The reference to the shared `true` carries its word offset 3, which
`OSUnserializeBinary` reads as the ordinal of the fourth object decoded, the
data; the string is written with its NUL, which `withStringOfLength` refuses,
so the second text decodes to `NULL`. -/
theorem binarySerializeIndexed_unserialize_mismatch :
    binarySerializeIndexed [.array [1, 2, 3, 1], .boolean true, .boolean false, .data []] 0 =
        some (true, [0xD4, 4, 0, 0, 4, 0, 0, 0x82, 6, 0, 0, 0, 1, 0, 0, 0x0B, 0, 0, 0, 0x0B, 0, 0, 0, 0x0A,
          3, 0, 0, 0x8C]) ∧
      osUnserializeBinary [0xD4, 4, 0, 0, 4, 0, 0, 0x82, 6, 0, 0, 0, 1, 0, 0, 0x0B, 0, 0, 0, 0x0B, 0, 0, 0, 0x0A,
          3, 0, 0, 0x8C] =
        some (some ⟨[.array [1, 2, 3, 3], .boolean true, .boolean false, .data []], 0⟩) ∧
      binarySerializeIndexed [.string [0x61]] 0 = some (true, [0xD4, 1, 0, 0, 2, 0, 0, 0x89, 0x61, 0, 0, 0]) ∧
      osUnserializeBinary [0xD4, 1, 0, 0, 2, 0, 0, 0x89, 0x61, 0, 0, 0] = some none := by
  decide

end Xnu.Serialize
