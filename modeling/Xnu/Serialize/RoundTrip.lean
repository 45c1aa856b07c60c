import Xnu.Serialize.Serialize
import Xnu.Serialize.Unserialize

namespace Xnu.Serialize

/-! The encoder against the decoder. `binarySerialize` writes an `OSSymbol`
with its NUL, so the empty symbol is a one-byte record, which
`OSUnserializeBinary` refuses (`len < 2`); and it writes an `OSNumber` of any
size, where the decoder takes only 8, 16, 32 and 64 bits. -/

/-- A dictionary with the empty key, and a twelve-bit number: each is written
with `binarySerialize` returning `true`, and each text decodes to `NULL`. -/
theorem binarySerialize_unserialize_null :
    binarySerialize [.dictionary [(1, 2)], .symbol [], .boolean true] 0 =
        some (true, [0xD3, 0, 0, 0, 0x01, 0, 0, 0x81, 0x01, 0, 0, 0x08, 0, 0, 0, 0,
          0x01, 0, 0, 0x8B]) ∧
      osUnserializeBinary [0xD3, 0, 0, 0, 0x01, 0, 0, 0x81, 0x01, 0, 0, 0x08, 0, 0, 0, 0,
        0x01, 0, 0, 0x8B] = some none ∧
      binarySerialize [.number 5 12] 0 =
        some (true, [0xD3, 0, 0, 0, 0x0C, 0, 0, 0x84, 5, 0, 0, 0, 0, 0, 0, 0]) ∧
      osUnserializeBinary [0xD3, 0, 0, 0, 0x0C, 0, 0, 0x84, 5, 0, 0, 0, 0, 0, 0, 0] = some none := by
  decide

end Xnu.Serialize
