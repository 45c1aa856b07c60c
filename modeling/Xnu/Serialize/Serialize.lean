import Xnu.Serialize.Format

namespace Xnu.Serialize

/-! `OSSerialize::binarySerialize` on a stream made by `binaryWithCapacity`
with no editor and without `setIndexed`. The capacity of the stream is not
modelled, only the 32-bit overflow checks on its length. -/

/-- A binary `OSSerialize`: the text `data[0, length)`, the objects already
written (`tags`), and the `endCollection` flag. -/
structure OSSerialize where
  data : List UInt8
  tags : List Nat
  endCollection : Bool

/-- `OSSerialize::binaryWithCapacity`: the signature, and the first record
ends the top level. -/
def OSSerialize.binaryWithCapacity : OSSerialize := ⟨kOSSerializeBinarySignature, [], true⟩

/-- The zero bytes after `size` bytes of a record that fill its last word. -/
def padding (size : Nat) : List UInt8 := List.replicate ((size + 3) / 4 * 4 - size) 0

/-- `OSSerialize::addBinary(bits, size)`: `false` when `length + alignSize`
does not fit in an `unsigned int`. -/
def OSSerialize.addBinary (s : OSSerialize) (bits : List UInt8) : Bool × OSSerialize :=
  if s.data.length + (bits.length + 3) / 4 * 4 ≥ 2 ^ 32 then (false, s)
  else (true, { s with data := s.data ++ bits ++ padding bits.length })

/-- `OSSerialize::addBinaryObject(o, key, bits, size, NULL)`: the object is
tagged before the length check, and the key takes the end mark if one is
pending. -/
def OSSerialize.addBinaryObject (s : OSSerialize) (o : Nat) (key : UInt32) (bits : List UInt8) :
    Bool × OSSerialize :=
  let s := { s with tags := s.tags ++ [o] }
  if s.data.length + (bits.length + 4 + 3) / 4 * 4 ≥ 2 ^ 32 then (false, s)
  else
    let key := if s.endCollection then key ||| kOSSerializeEndCollecton else key
    (true, { s with data := s.data ++ leBytes key ++ bits ++ padding (4 + bits.length),
                    endCollection := false })

/-- `binarySerialize(member)`, and when it fails `member->serialize(this)`,
which on a binary stream calls `binarySerialize` once more. -/
def serializeRetry (serialize : Nat → OSSerialize → Option (Bool × OSSerialize)) (o : Nat)
    (s : OSSerialize) : Option (Bool × OSSerialize) :=
  match serialize o s with
  | none => none
  | some (true, s) => some (true, s)
  | some (false, s) => serialize o s

/-- The loop over an array's or a set's members: `i` counts those written,
and the last one is written with `endCollection` set. -/
def serializeMembers (serialize : Nat → OSSerialize → Option (Bool × OSSerialize)) (count : Nat) :
    List Nat → Nat → OSSerialize → Option (Bool × OSSerialize)
  | [], _, s => some (true, s)
  | m :: rest, i, s =>
    match serializeRetry serialize m { s with endCollection := i + 1 == count } with
    | none => none
    | some (false, s) => some (false, s)
    | some (true, s) => serializeMembers serialize count rest (i + 1) s

/-- The loop over a dictionary's entries: the key, then the value with
`endCollection` set for the last entry. -/
def serializeEntries (serialize : Nat → OSSerialize → Option (Bool × OSSerialize)) (count : Nat) :
    List (Nat × Nat) → Nat → OSSerialize → Option (Bool × OSSerialize)
  | [], _, s => some (true, s)
  | (key, value) :: rest, i, s =>
    match serialize key s with
    | none => none
    | some (false, s) => some (false, s)
    | some (true, s) =>
      match serializeRetry serialize value { s with endCollection := i + 1 == count } with
      | none => none
      | some (false, s) => some (false, s)
      | some (true, s) => serializeEntries serialize count rest (i + 1) s

/-- The header of a collection, then its members while `ok` holds. -/
def serializeCollection (s : OSSerialize) (o : Nat) (key : UInt32)
    (members : OSSerialize → Option (Bool × OSSerialize)) : Option (Bool × OSSerialize) :=
  match s.addBinaryObject o key [] with
  | (true, s) => members s
  | (false, s) => some (false, s)

/-- `OSSerialize::binarySerializeInternal` for `fuel` levels of nesting; `none`
is an object index outside the heap or the fuel run out. An object already
tagged is written as a reference to its tag; lengths and counts are or-ed into
the key unchecked. -/
def binarySerializeFuel (heap : List OSObject) : Nat → Nat → OSSerialize → Option (Bool × OSSerialize)
  | 0, _, _ => none
  | fuel + 1, o, s =>
    match s.tags.idxOf? o with
    | some tagIdx =>
      let key := kOSSerializeObject ||| tagIdx.toUInt32
      let key := if s.endCollection then key ||| kOSSerializeEndCollecton else key
      some ({ s with endCollection := false }.addBinary (leBytes key))
    | none =>
      match heap[o]? with
      | none => none
      | some (.dictionary entries) =>
        serializeCollection s o (kOSSerializeDictionary ||| entries.length.toUInt32)
          (serializeEntries (binarySerializeFuel heap fuel) entries.length entries 0)
      | some (.array members) =>
        serializeCollection s o (kOSSerializeArray ||| members.length.toUInt32)
          (serializeMembers (binarySerializeFuel heap fuel) members.length members 0)
      | some (.set members) =>
        serializeCollection s o (kOSSerializeSet ||| members.length.toUInt32)
          (serializeMembers (binarySerializeFuel heap fuel) members.length members 0)
      | some (.number value size) =>
        some (s.addBinaryObject o (kOSSerializeNumber ||| size.toUInt32) (leBytes64 value))
      | some (.boolean b) =>
        some (s.addBinaryObject o (kOSSerializeBoolean ||| (if b then 1 else 0)) [])
      | some (.symbol str) =>
        some (s.addBinaryObject o (kOSSerializeSymbol ||| (str.length + 1).toUInt32) (str ++ [0]))
      | some (.string str) =>
        some (s.addBinaryObject o (kOSSerializeString ||| str.length.toUInt32) str)
      | some (.data bytes) =>
        some (s.addBinaryObject o (kOSSerializeData ||| bytes.length.toUInt32) bytes)

/-- `binaryWithCapacity` then `binarySerialize(root)`: whether it returned
`true`, and the text. An object is entered only before it is tagged, so
`heap.length + 1` levels are enough. -/
def binarySerialize (heap : List OSObject) (root : Nat) : Option (Bool × List UInt8) :=
  (binarySerializeFuel heap (heap.length + 1) root OSSerialize.binaryWithCapacity).map
    fun r => (r.1, r.2.data)

end Xnu.Serialize
