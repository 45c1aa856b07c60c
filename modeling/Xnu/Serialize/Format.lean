import Xnu.Lib.Bytes

namespace Xnu.Serialize

/-! The binary property-list format of `OSSerializeBinary.h` and the libkern
objects it carries. Objects live in a heap and collections hold heap indices,
so that a member may be shared and a collection may reach itself. -/

def kOSSerializeDictionary : UInt32 := 0x01000000
def kOSSerializeArray : UInt32 := 0x02000000
def kOSSerializeSet : UInt32 := 0x03000000
def kOSSerializeNumber : UInt32 := 0x04000000
def kOSSerializeSymbol : UInt32 := 0x08000000
def kOSSerializeString : UInt32 := 0x09000000
def kOSSerializeData : UInt32 := 0x0a000000
def kOSSerializeBoolean : UInt32 := 0x0b000000
def kOSSerializeObject : UInt32 := 0x0c000000
def kOSSerializeTypeMask : UInt32 := 0x7F000000
def kOSSerializeDataMask : UInt32 := 0x00FFFFFF
def kOSSerializeEndCollecton : UInt32 := 0x80000000

/-- `"\323\0\0"` with its terminating NUL: `sizeof` is four. -/
def kOSSerializeBinarySignature : List UInt8 := [0xD3, 0, 0, 0]

def kOSSerializeIndexedBinarySignature : UInt8 := 0xD4

/-- `OSString::kMaxStringLength`. -/
def kMaxStringLength : Nat := 262142

/-- The record kinds of the `switch (kOSSerializeTypeMask & key)`. -/
inductive OSSerializeType where
  | dictionary
  | array
  | set
  | number
  | symbol
  | string
  | data
  | boolean
  | object
  deriving DecidableEq, Repr

def OSSerializeType.code : OSSerializeType → UInt32
  | .dictionary => kOSSerializeDictionary
  | .array => kOSSerializeArray
  | .set => kOSSerializeSet
  | .number => kOSSerializeNumber
  | .symbol => kOSSerializeSymbol
  | .string => kOSSerializeString
  | .data => kOSSerializeData
  | .boolean => kOSSerializeBoolean
  | .object => kOSSerializeObject

def OSSerializeType.all : List OSSerializeType :=
  [.dictionary, .array, .set, .number, .symbol, .string, .data, .boolean, .object]

/-- The `case` label a type field selects; `none` is the `default:` branch. -/
def OSSerializeType.decode (t : UInt32) : Option OSSerializeType :=
  OSSerializeType.all.find? fun ty => ty.code == t

/-- An object of one of the serialisable classes. A dictionary holds its
`(OSSymbol key, value)` entries in insertion order. -/
inductive OSObject where
  | dictionary (entries : List (Nat × Nat))
  | array (members : List Nat)
  | set (members : List Nat)
  | number (value : UInt64) (size : Nat)
  | symbol (s : List UInt8)
  | string (s : List UInt8)
  | data (bytes : List UInt8)
  | boolean (b : Bool)
  deriving DecidableEq, Repr

inductive OSCollectionKind where
  | dictionary
  | array
  | set
  deriving DecidableEq, Repr

/-- `OSDictionary::withCapacity`, `OSArray::withCapacity`, `OSSet::withCapacity`. -/
def OSCollectionKind.empty : OSCollectionKind → OSObject
  | .dictionary => .dictionary []
  | .array => .array []
  | .set => .set []

/-- `OSDynamicCast` to the three collection classes. -/
def OSObject.collectionKind : OSObject → Option OSCollectionKind
  | .dictionary _ => some .dictionary
  | .array _ => some .array
  | .set _ => some .set
  | _ => none

/-- The objects a collection holds: keys and values of a dictionary, members
of an array or a set. -/
def OSObject.members : OSObject → List Nat
  | .dictionary entries => entries.flatMap fun e => [e.1, e.2]
  | .array members => members
  | .set members => members
  | _ => []

/-- A new object at the end of the heap. -/
def alloc (heap : List OSObject) (o : OSObject) : List OSObject × Nat :=
  (heap ++ [o], heap.length)

/-- `OSSymbol::withCString` and `kOSBooleanTrue`/`kOSBooleanFalse`: symbols
are uniqued by their string and the booleans are two shared objects, so an
equal one already in the heap is returned. -/
def intern (heap : List OSObject) (o : OSObject) : List OSObject × Nat :=
  match heap.idxOf? o with
  | some i => (heap, i)
  | none => alloc heap o

/-- `OSDictionary::setObject(aKey, anObject)` on an unsorted dictionary: the
value of an existing key is replaced, a new key is appended. -/
def dictionarySetObject : List (Nat × Nat) → Nat → Nat → List (Nat × Nat)
  | [], key, value => [(key, value)]
  | e :: rest, key, value =>
    if e.1 = key then (key, value) :: rest else e :: dictionarySetObject rest key value

/-! The abstract shape of a heap: which object holds which, and whether a
collection reaches itself. -/

/-- `a` holds `b` directly. -/
def Holds (heap : List OSObject) (a b : Nat) : Prop :=
  ∃ o, heap[a]? = some o ∧ b ∈ o.members

/-- `a` holds `b` directly or through other collections. -/
def Reaches (heap : List OSObject) : Nat → Nat → Prop :=
  Relation.TransGen (Holds heap)

/-- No collection of the heap contains itself, directly or through its descendants. -/
def Acyclic (heap : List OSObject) : Prop :=
  ∀ a, ¬ Reaches heap a a

theorem Holds.reaches {heap : List OSObject} {a b : Nat} (holds : Holds heap a b) :
    Reaches heap a b :=
  Relation.TransGen.single holds

theorem not_acyclic_of_holds_self {heap : List OSObject} {a : Nat} (holds : Holds heap a a) :
    ¬ Acyclic heap :=
  fun acyclic => acyclic a holds.reaches

end Xnu.Serialize
