import Xnu.Serialize.Format

namespace Xnu.Serialize

/-! `OSUnserializeBinary`. The buffer is the `bufferSize` bytes the caller
passes, so a read past its end is a read at or beyond `bufferSize`; the model
returns `none` there. -/

def objsCapacityMax : Nat := 16 * 1024 * 1024

def stackCapacityMax : Nat := 64

/-- The capacity check of `setAtIndex(v, idx, o)`: the array grows by 64 slots
at a time and refuses to grow past its maximum (`ok = false`). -/
def setAtIndexCapacity (capacity capacityMax idx : Nat) : Option Nat :=
  if idx ≥ capacity then
    if capacity ≥ capacityMax then none else some (capacity + 64)
  else some capacity

/-- What the `switch` on the record type leaves: the object `o`, the heap it
may have grown, where `next` now points, whether `o` opens a collection with
members (`newCollect`, with its class), whether it is a reference to an
earlier object (`isRef`), and whether a length word follows (`hasLength`). -/
structure UnserializedRecord where
  heap : List OSObject
  o : Nat
  bufferPos : Nat
  newCollect : Option OSCollectionKind
  isRef : Bool
  hasLength : Bool

section Record

variable (buffer : List UInt8) (indexed : Bool) (heap : List OSObject) (objs : List Nat)
  (bufferPos len wordLen : Nat)

/-- `OSDictionary`, `OSArray`, `OSSet` `::withCapacity(len)`. -/
def unserializeCollection (kind : OSCollectionKind) : UnserializedRecord :=
  let (heap, o) := alloc heap kind.empty
  ⟨heap, o, bufferPos, if len ≠ 0 then some kind else none, false, indexed⟩

/-- A leaf object made at `o`; `next` has moved past its payload. -/
def unserializeLeaf (made : List OSObject × Nat) (next : Nat) : UnserializedRecord :=
  ⟨made.1, made.2, next, none, false, false⟩

/-- `~0ULL >> (64 - size)`. -/
def sizeMask (size : Nat) : UInt64 := (~~~0 : UInt64) >>> (64 - size).toUInt64

/-- `case kOSSerializeNumber`: eight payload bytes, a size of 8, 16, 32 or 64
bits, and `OSNumber::withNumber(value, len)`. -/
def unserializeNumber : Option (Option UnserializedRecord) :=
  if bufferPos + 8 > buffer.length then some none
  else if len ≠ 32 ∧ len ≠ 64 ∧ len ≠ 16 ∧ len ≠ 8 then some none
  else do
    let lo ← readWordLE buffer bufferPos
    let hi ← readWordLE buffer (bufferPos + 4)
    let value := (hi.toUInt64 <<< 32) ||| lo.toUInt64
    pure (some (unserializeLeaf (alloc heap (.number (value &&& sizeMask len) len)) (bufferPos + 8)))

/-- `case kOSSerializeSymbol`: at least two bytes, the last of them NUL, and
`OSSymbol::withCString` of the string up to the first NUL. -/
def unserializeSymbol : Option (Option UnserializedRecord) :=
  if bufferPos + wordLen * 4 > buffer.length then some none
  else if len < 2 then some none
  else do
    let bytes ← readBytes buffer bufferPos len
    if bytes[len - 1]? ≠ some 0 then pure none
    else
      let s := bytes.takeWhile (· ≠ 0)
      if s.length ≥ kMaxStringLength then pure none
      else pure (some (unserializeLeaf (intern heap (.symbol s)) (bufferPos + wordLen * 4)))

/-- `case kOSSerializeString`: `OSString::withStringOfLength(next, len)`, which
refuses a length of `kMaxStringLength` or more and a NUL among the bytes. -/
def unserializeString : Option (Option UnserializedRecord) :=
  if bufferPos + wordLen * 4 > buffer.length then some none
  else do
    let bytes ← readBytes buffer bufferPos len
    if len ≥ kMaxStringLength ∨ 0 ∈ bytes then pure none
    else pure (some (unserializeLeaf (alloc heap (.string bytes)) (bufferPos + wordLen * 4)))

/-- `case kOSSerializeData`: `OSData::withBytes(next, len)`. -/
def unserializeData : Option (Option UnserializedRecord) :=
  if bufferPos + wordLen * 4 > buffer.length then some none
  else do
    let bytes ← readBytes buffer bufferPos len
    pure (some (unserializeLeaf (alloc heap (.data bytes)) (bufferPos + wordLen * 4)))

/-- The `switch` on a record's type. The outer `none` is a read past the
buffer; `some none` leaves `o == NULL`, which ends decoding. -/
def unserializeRecord (type : Option OSSerializeType) : Option (Option UnserializedRecord) :=
  match type with
  | some .dictionary => some (some (unserializeCollection indexed heap bufferPos len .dictionary))
  | some .array => some (some (unserializeCollection indexed heap bufferPos len .array))
  | some .set => some (some (unserializeCollection indexed heap bufferPos len .set))
  | some .object =>
    if h : len < objs.length then some (some ⟨heap, objs[len], bufferPos, none, true, false⟩)
    else some none
  | some .number => unserializeNumber buffer heap bufferPos len
  | some .symbol => unserializeSymbol buffer heap bufferPos len wordLen
  | some .string => unserializeString buffer heap bufferPos len wordLen
  | some .data => unserializeData buffer heap bufferPos len wordLen
  | some .boolean => some (some (unserializeLeaf (intern heap (.boolean (len ≠ 0))) bufferPos))
  | none => some none

end Record

/-- The locals of the decoding loop. `stack` is `stackArray[1..stackIdx]`,
top first; `collection` is whichever of `dict`, `array`, `set` is not `NULL`. -/
structure UnserializeState where
  bufferPos : Nat
  heap : List OSObject
  objs : List Nat
  objsCapacity : Nat
  stack : List (Option Nat)
  stackCapacity : Nat
  parent : Option Nat
  collection : Option (OSCollectionKind × Nat)
  sym : Option Nat
  result : Option Nat

def UnserializeState.init : UnserializeState :=
  ⟨kOSSerializeBinarySignature.length, [], [], 0, [], 0, none, none, none, none⟩

/-- `OSDynamicCast(OSSymbol, sym)`, and for an `OSString` key
`OSSymbol::withString(str)`; any other key is `NULL`. -/
def dictionaryKey (heap : List OSObject) (sym : Nat) : List OSObject × Option Nat :=
  match heap[sym]? with
  | some (.symbol _) => (heap, some sym)
  | some (.string s) =>
    let (heap, key) := intern heap (.symbol s)
    (heap, some key)
  | _ => (heap, none)

/-- Where the new object goes: the pending key or the value of a dictionary
entry, the end of an array, a set unless already there, or the result. The
heap, the pending key and the result after it; `none` is `ok = false`. -/
def unserializeInsert (heap : List OSObject) (collection : Option (OSCollectionKind × Nat))
    (sym result : Option Nat) (o : Nat) : Option (List OSObject × Option Nat × Option Nat) :=
  match collection with
  | some (.dictionary, dict) =>
    match sym with
    | none => some (heap, some o, result)
    | some s =>
      let (heap, key) := dictionaryKey heap s
      -- only the dictionary itself is refused as its own value
      if o = dict then some (heap, none, result)
      else
        match key, heap[dict]? with
        | some k, some (.dictionary entries) =>
          some (heap.set dict (.dictionary (dictionarySetObject entries k o)), none, result)
        | _, _ => none
  | some (.array, array) =>
    match heap[array]? with
    | some (.array members) => some (heap.set array (.array (members ++ [o])), sym, result)
    | _ => none
  | some (.set, set) =>
    match heap[set]? with
    | some (.set members) =>
      if o ∈ members then none else some (heap.set set (.set (members ++ [o])), sym, result)
    | _ => none
  | none =>
    match result with
    | some _ => none
    | none => some (heap, sym, some o)

/-- The `while (stackIdx)` loop: pop until a non-`NULL` parent. -/
def popParent : List (Option Nat) → Option Nat × List (Option Nat)
  | [] => (none, [])
  | some p :: rest => (some p, rest)
  | none :: rest => popParent rest

inductive UnserializeStep where
  | next (st : UnserializeState)
  | done (st : UnserializeState)
  | fail

/-- The end of a loop pass: `parent = NULL` on an end mark, the push of a new
collection, and the pops after the last member of a collection. `done` is the
`break` with `ok` still set. -/
def unserializeNest (st : UnserializeState) (isEnd : Bool) (o : Nat)
    (newCollect : Option OSCollectionKind) : UnserializeStep :=
  let parent := if isEnd then none else st.parent
  match newCollect with
  | some kind =>
    match setAtIndexCapacity st.stackCapacity stackCapacityMax (st.stack.length + 1) with
    | none => .fail
    | some stackCapacity =>
      .next { st with stack := parent :: st.stack, stackCapacity, parent := some o,
                      collection := some (kind, o) }
  | none =>
    if isEnd then
      match popParent st.stack with
      | (none, stack) => .done { st with stack, parent := none }
      | (some p, stack) =>
        match st.heap[p]?.bind OSObject.collectionKind with
        | some kind => .next { st with stack, parent := some p, collection := some (kind, p) }
        | none => .fail
    else .next { st with parent }

/-- The length word after an indexed collection's key: where `next` points
after it; `some none` is the check that ends decoding. -/
def unserializeLength (buffer : List UInt8) (r : UnserializedRecord) : Option (Option Nat) :=
  if r.hasLength then
    if r.bufferPos + 4 > buffer.length then some none
    else (readWordLE buffer r.bufferPos).map fun _ => some (r.bufferPos + 4)
  else some (some r.bufferPos)

/-- `setAtIndex(objs, objsIdx, o); objsIdx++` for an object that is not a
reference: `objsArray` and its capacity after it, `none` when it is full. -/
def unserializeRegister (st : UnserializeState) (r : UnserializedRecord) : Option (List Nat × Nat) :=
  if r.isRef then some (st.objs, st.objsCapacity)
  else
    (setAtIndexCapacity st.objsCapacity objsCapacityMax st.objs.length).map
      fun capacity => (st.objs ++ [r.o], capacity)

/-- One pass of the `while (ok)` loop; `none` is a read past the buffer. -/
def unserializeStep (buffer : List UInt8) (indexed : Bool) (st : UnserializeState) :
    Option UnserializeStep :=
  if st.bufferPos + 4 > buffer.length then some .fail
  else
    match readWordLE buffer st.bufferPos with
    | none => none
    | some key =>
      let len := (key &&& kOSSerializeDataMask).toNat
      let isEnd := key &&& kOSSerializeEndCollecton != 0
      let type := OSSerializeType.decode (key &&& kOSSerializeTypeMask)
      match unserializeRecord buffer indexed st.heap st.objs (st.bufferPos + 4) len ((len + 3) / 4)
          type with
      | none => none
      | some none => some .fail
      | some (some r) =>
        match unserializeLength buffer r with
        | none => none
        | some none => some .fail
        | some (some bufferPos) =>
          match unserializeRegister st r with
          | none => some .fail
          | some (objs, objsCapacity) =>
            match unserializeInsert r.heap st.collection st.sym st.result r.o with
            | none => some .fail
            | some (heap, sym, result) =>
              some (unserializeNest { st with bufferPos, heap, objs, objsCapacity, sym, result }
                isEnd r.o r.newCollect)

/-- The loop for at most `fuel` passes: the final state, or `none` inside
for `ok = false`. -/
def unserializeLoop (buffer : List UInt8) (indexed : Bool) :
    Nat → UnserializeState → Option (Option UnserializeState)
  | 0, _ => none
  | fuel + 1, st =>
    match unserializeStep buffer indexed st with
    | none => none
    | some .fail => some none
    | some (.done st) => some (some st)
    | some (.next st) => unserializeLoop buffer indexed fuel st

/-- What `OSUnserializeBinary` returns that is not `NULL`: the root object and
the heap of the objects decoding made. -/
structure Unserialized where
  heap : List OSObject
  root : Nat
  deriving DecidableEq, Repr

/-- `OSUnserializeBinary(buffer, bufferSize)`: `some none` is `NULL`. Every
pass reads at least a key word, so `bufferSize` passes are enough. -/
def osUnserializeBinary (buffer : List UInt8) : Option (Option Unserialized) :=
  match buffer with
  | b0 :: b1 :: _ :: _ :: _ =>
    let indexed := b0 == kOSSerializeIndexedBinarySignature
    -- `strcmp(kOSSerializeBinarySignature, buffer)` stops at the signature's NUL
    if !indexed && !(b0 == 0xD3 && b1 == 0) then some none
    else
      match unserializeLoop buffer indexed buffer.length UnserializeState.init with
      | none => none
      | some none => some none
      | some (some st) => some (st.result.map fun root => ⟨st.heap, root⟩)
  | _ => some none

end Xnu.Serialize
