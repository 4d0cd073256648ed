import RuntimeTrace.Binary64
import RuntimeTrace.LittleEndian
import RuntimeTrace.Text.Utf16

/-!
# Writing event payloads

The producer's side of a payload: each field as the bytes it is written as.
Integers and doubles are little-endian, a truth value is a word of four bytes,
and text is its UTF-16 units with a zero unit at the end.
-/

namespace RuntimeTrace
namespace Wire

/-- A field of a payload. -/
inductive Field where
  | uint8 (n : UInt8)
  | uint32 (n : UInt32)
  | int32 (n : Int32)
  | int64 (n : Int64)
  | binary64 (x : Binary64)
  | bool (b : Bool)
  | text (s : String)
  deriving DecidableEq

/-- The bytes of a list of units. -/
def unitBytes (units : List UInt16) : List UInt8 :=
  units.flatMap fun u => LittleEndian.bytes 2 u.toNat

/-- The bytes a field is written as. -/
def Field.bytes : Field → List UInt8
  | .uint8 n => LittleEndian.bytes 1 n.toNat
  | .uint32 n => LittleEndian.bytes 4 n.toNat
  | .int32 n => LittleEndian.bytes 4 n.toUInt32.toNat
  | .int64 n => LittleEndian.bytes 8 n.toUInt64.toNat
  | .binary64 x => LittleEndian.bytes 8 x.bits.toNat
  | .bool b => LittleEndian.bytes 4 (if b then 1 else 0)
  | .text s => unitBytes (Utf16.encode s.toList) ++ [0, 0]

/-- The bytes of a list of fields. -/
def layoutBytes (fields : List Field) : List UInt8 := fields.flatMap Field.bytes

end Wire
end RuntimeTrace
