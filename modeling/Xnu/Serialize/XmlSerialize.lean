import Xnu.Serialize.Serialize

namespace Xnu.Serialize

/-! `serialize` of the libkern containers on an XML `OSSerialize`, one made by
`OSSerialize::withCapacity`. An object other than a boolean is written once
with `ID="n"`, `n` being its place in `tags`, and after that as
`<reference IDREF="n"/>`. The capacity of the stream is not modelled, so
adding text never fails, and `OSData`'s `disableSerialization` is left out. -/

/-- A `char` constant of the source, as the byte it is. -/
def chr (c : Char) : UInt8 := c.toNat.toUInt8

/-- The bytes of an ASCII string constant. -/
def ascii (s : String) : List UInt8 := s.toList.map chr

/-- The digit `d` as `printf` writes it: `0`–`9`, then `a`–`f`. -/
def printDigit (d : Nat) : UInt8 := if d < 10 then chr '0' + d.toUInt8 else chr 'a' + (d - 10).toUInt8

/-- `n` in base `base` without leading zeros, as `%u` and `%lx` write it. -/
def printNat (base n : Nat) : List UInt8 :=
  if n < base ∨ base < 2 then [printDigit n] else printNat base (n / base) ++ [printDigit (n % base)]
termination_by n
decreasing_by exact Nat.div_lt_self (by omega) (by omega)

/-- `%08lx`: leading zeros up to eight digits. -/
def padZeros (width : Nat) (digits : List UInt8) : List UInt8 :=
  List.replicate (width - digits.length) (chr '0') ++ digits

/-- `OSSerialize::withCapacity`: an XML stream with no text and no tags. -/
def OSSerialize.withCapacity : OSSerialize := ⟨[], [], false⟩

/-- `s->text()`: the text with its terminating NUL. -/
def OSSerialize.text (s : OSSerialize) : List UInt8 := s.data ++ [0]

/-- `addString(str)`, and `addChar` for one character. -/
def OSSerialize.addString (s : OSSerialize) (str : List UInt8) : OSSerialize :=
  { s with data := s.data ++ str }

/-- `previouslySerialized(o)` on an XML stream: an object already in `tags` is
written as a reference to its place there; a new one is added to `tags`. -/
def OSSerialize.previouslySerialized (s : OSSerialize) (o : Nat) : Bool × OSSerialize :=
  match s.tags.idxOf? o with
  | some tagIdx => (true, s.addString (ascii "<reference IDREF=\"" ++ printNat 10 tagIdx ++ ascii "\"/>"))
  | none => (false, { s with tags := s.tags ++ [o] })

/-- `addXMLStartTag(o, tagString)`: the tag with the place of `o` in `tags`. -/
def OSSerialize.addXMLStartTag (s : OSSerialize) (o : Nat) (tagString : List UInt8) : OSSerialize :=
  s.addString (ascii "<" ++ tagString ++ ascii " ID=\"" ++ printNat 10 (s.tags.idxOf o) ++ ascii "\">")

/-- `addXMLEndTag(tagString)`. -/
def OSSerialize.addXMLEndTag (s : OSSerialize) (tagString : List UInt8) : OSSerialize :=
  s.addString (ascii "</" ++ tagString ++ ascii ">")

/-- The loop of `OSString::serialize`, and of a key in
`OSDictionary::serialize`: the C string up to its NUL, with `<`, `>` and `&`
written as entities. -/
def escapeXml (str : List UInt8) : List UInt8 :=
  (str.takeWhile (· ≠ 0)).flatMap fun c =>
    if c = chr '<' then ascii "&lt;"
    else if c = chr '>' then ascii "&gt;"
    else if c = chr '&' then ascii "&amp;"
    else [c]

/-! `OSData::serialize`: three bytes as four characters of
`__CFPLDataEncodeTable`, and `=` padding. -/

def cfplDataEncodeTable : List UInt8 :=
  ascii "ABCDEFGHIJKLMNOPQRSTUVWXYZabcdefghijklmnopqrstuvwxyz0123456789+/"

/-- `__CFPLDataEncodeTable[n]`. -/
def cfplDataEncode (n : Nat) : UInt8 := cfplDataEncodeTable.getD n 0

/-- What the loop writes for the byte `p` at index `i`, `prev` being `p[-1]`. -/
def osDataEncodeByte (i : Nat) (prev p : UInt8) : List UInt8 :=
  match i % 3 with
  | 0 => [cfplDataEncode ((p.toNat >>> 2) &&& 0x3f)]
  | 1 => [cfplDataEncode ((((prev.toNat <<< 8) ||| p.toNat) >>> 4) &&& 0x3f)]
  | _ =>
    [cfplDataEncode ((((prev.toNat <<< 8) ||| p.toNat) >>> 6) &&& 0x3f), cfplDataEncode (p.toNat &&& 0x3f)]

/-- The loop `for (i = 0, p = data; i < serializeLength; i++, p++)` from index
`i` on. -/
def osDataEncodeLoop : Nat → UInt8 → List UInt8 → List UInt8
  | _, _, [] => []
  | i, prev, p :: rest => osDataEncodeByte i prev p ++ osDataEncodeLoop (i + 1) p rest

/-- The `switch (i % 3)` after the loop, `last` being `p[-1]`. -/
def osDataEncodeTail (i : Nat) (last : UInt8) : List UInt8 :=
  match i % 3 with
  | 0 => []
  | 1 => [cfplDataEncode ((last.toNat <<< 4) &&& 0x30), chr '=', chr '=']
  | _ => [cfplDataEncode ((last.toNat <<< 2) &&& 0x3c), chr '=']

def osDataEncode (bytes : List UInt8) : List UInt8 :=
  osDataEncodeLoop 0 0 bytes ++ osDataEncodeTail bytes.length (bytes.getLastD 0)

/-- The value `OSNumber::serialize` writes: `"0x%lx%08lx"` of the two halves
when the high one is not zero, `"0x%lx"` otherwise. -/
def osNumberText (value : UInt64) : List UInt8 :=
  if value >>> 32 ≠ 0 then
    ascii "0x" ++ printNat 16 (value >>> 32).toNat ++ padZeros 8 (printNat 16 (value &&& 0xFFFFFFFF).toNat)
  else ascii "0x" ++ printNat 16 value.toNat

/-! The `serialize` methods. A collection's loops are given the method for its
members, one level of `fuel` down. -/

/-- The loop of `OSArray::serialize` and `OSSet::serialize`. -/
def xmlSerializeMembers (serialize : Nat → OSSerialize → Option OSSerialize) :
    List Nat → OSSerialize → Option OSSerialize
  | [], s => some s
  | m :: rest, s => do
    let s ← serialize m s
    xmlSerializeMembers serialize rest s

/-- The loop of `OSDictionary::serialize`: each key, which must be an
`OSSymbol`, as `<key>` with its string escaped, then its value. -/
def xmlSerializeEntries (heap : List OSObject) (serialize : Nat → OSSerialize → Option OSSerialize) :
    List (Nat × Nat) → OSSerialize → Option OSSerialize
  | [], s => some s
  | (key, value) :: rest, s =>
    match heap[key]? with
    | some (.symbol str) => do
      let s ← serialize value ((s.addString (ascii "<key>" ++ escapeXml str)).addXMLEndTag (ascii "key"))
      xmlSerializeEntries heap serialize rest s
    | _ => none

/-- `serialize(s)` of the object at index `o`: `none` where it returns `false`,
for a member that is not in the heap (a `NULL` member) or a key that is not a
symbol, and when `fuel` runs out. -/
def xmlSerializeFuel (heap : List OSObject) : Nat → Nat → OSSerialize → Option OSSerialize
  | 0, _, _ => none
  | fuel + 1, o, s =>
    match heap[o]? with
    | none => none
    -- `OSBoolean::serialize` writes the tag alone, never through `tags`
    | some (.boolean b) => some (s.addString (if b then ascii "<true/>" else ascii "<false/>"))
    | some obj =>
      match s.previouslySerialized o with
      | (true, s) => some s
      | (false, s) =>
        match obj with
        | .dictionary entries => do
          let s ← xmlSerializeEntries heap (xmlSerializeFuel heap fuel) entries
            (s.addXMLStartTag o (ascii "dict"))
          pure (s.addXMLEndTag (ascii "dict"))
        | .array members => do
          let s ← xmlSerializeMembers (xmlSerializeFuel heap fuel) members (s.addXMLStartTag o (ascii "array"))
          pure (s.addXMLEndTag (ascii "array"))
        | .set members => do
          let s ← xmlSerializeMembers (xmlSerializeFuel heap fuel) members (s.addXMLStartTag o (ascii "set"))
          pure (s.addXMLEndTag (ascii "set"))
        | .string str | .symbol str =>
          some (((s.addXMLStartTag o (ascii "string")).addString (escapeXml str)).addXMLEndTag (ascii "string"))
        | .data bytes =>
          some (((s.addXMLStartTag o (ascii "data")).addString (osDataEncode bytes)).addXMLEndTag (ascii "data"))
        | .number value size =>
          let tag := ascii "integer size=\"" ++ printNat 10 size ++ ascii "\""
          some (((s.addXMLStartTag o tag).addString (osNumberText value)).addXMLEndTag (ascii "integer"))
        | .boolean _ => none

/-- `OSSerialize::withCapacity`, `root->serialize(s)` and `s->text()`. A
nested serialization visits a new object at each level, so one level more
than the heap has objects is enough fuel. -/
def xmlSerialize (heap : List OSObject) (root : Nat) : Option (List UInt8) :=
  (xmlSerializeFuel heap (heap.length + 1) root OSSerialize.withCapacity).map OSSerialize.text

end Xnu.Serialize
