import RuntimeTrace.Proofs.Text.Utf16
import RuntimeTrace.Wire.Cursor
import RuntimeTrace.Wire.Field

/-!
# Fields are read back

Each kind of field is written by one function and read by another.  The equations below
say that reading undoes writing and stops exactly where the field ends: read from the
bytes of a field with anything behind them, the value is the one that was written, and
what is left is what stood behind.  That is all a layout needs, since it is fields one
behind the other.

A number has room in its bytes, so integers of every width and sign, doubles and truth
values are one statement on `readNat`.  Text has no length, and relies on the zero unit at
its end: it is read back if no character of it is written with that unit.
-/

namespace RuntimeTrace
namespace Wire

/-! ## Numbers -/

/-- **A number is read back** from its bytes if it fits in them. -/
theorem readNat_bytes {width n : Nat} (h : n < Nat.pow 256 width) (rest : List UInt8) :
    readNat width (LittleEndian.bytes width n ++ rest) = (some n, rest) := by
  have hlength := LittleEndian.length_bytes width n
  have hfits : width ≤ (LittleEndian.bytes width n ++ rest).length := by
    rw [List.length_append, hlength]
    omega
  rw [readNat, if_pos hfits, List.take_left' hlength, List.drop_left' hlength,
    LittleEndian.value_bytes, Nat.mod_eq_of_lt h]

@[simp] theorem readUInt8_bytes (n : UInt8) (rest : List UInt8) :
    readUInt8 ((Field.uint8 n).bytes ++ rest) = (some n, rest) := by
  rw [readUInt8, Read.map, Field.bytes, readNat_bytes n.toNat_lt, Option.map_some,
    UInt8.ofNat_toNat]

@[simp] theorem readUInt32_bytes (n : UInt32) (rest : List UInt8) :
    readUInt32 ((Field.uint32 n).bytes ++ rest) = (some n, rest) := by
  rw [readUInt32, Read.map, Field.bytes, readNat_bytes n.toNat_lt, Option.map_some,
    UInt32.ofNat_toNat]

@[simp] theorem readInt32_bytes (n : Int32) (rest : List UInt8) :
    readInt32 ((Field.int32 n).bytes ++ rest) = (some n, rest) := by
  rw [readInt32, Read.map, Field.bytes, readNat_bytes n.toUInt32.toNat_lt, Option.map_some,
    UInt32.ofNat_toNat]
  rfl

@[simp] theorem readInt64_bytes (n : Int64) (rest : List UInt8) :
    readInt64 ((Field.int64 n).bytes ++ rest) = (some n, rest) := by
  rw [readInt64, Read.map, Field.bytes, readNat_bytes n.toUInt64.toNat_lt, Option.map_some,
    UInt64.ofNat_toNat]
  rfl

/-- A double is read back bit by bit, one that is not a number included. -/
@[simp] theorem readBinary64_bytes (x : Binary64) (rest : List UInt8) :
    readBinary64 ((Field.binary64 x).bytes ++ rest) = (some x, rest) := by
  rw [readBinary64, Read.map, Field.bytes, readNat_bytes x.bits.toNat_lt, Option.map_some,
    UInt64.ofNat_toNat]

@[simp] theorem readBool_bytes (b : Bool) (rest : List UInt8) :
    readBool ((Field.bool b).bytes ++ rest) = (some b, rest) := by
  cases b with
  | false => rw [readBool, Read.map, Field.bytes, readNat_bytes (by decide)]; rfl
  | true => rw [readBool, Read.map, Field.bytes, readNat_bytes (by decide)]; rfl

/-! ## Text -/

/-- A unit is written low byte first. -/
theorem unitBytes_cons (u : UInt16) (units : List UInt16) :
    unitBytes (u :: units) =
      UInt8.ofNat u.toNat :: UInt8.ofNat (u.toNat / 256) :: unitBytes units := rfl

/-- The two bytes of a unit stand for it. -/
theorem ofNat_value_pair (u : UInt16) :
    UInt16.ofNat (LittleEndian.value [UInt8.ofNat u.toNat, UInt8.ofNat (u.toNat / 256)]) = u := by
  have hvalue := LittleEndian.value_bytes 2 u.toNat
  rw [Nat.mod_eq_of_lt u.toNat_lt] at hvalue
  exact (congrArg UInt16.ofNat hvalue).trans UInt16.ofNat_toNat

/-- Units that are not zero are taken, whatever stands behind them, and taking goes on there. -/
theorem takeUnits_append {units : List UInt16} (h : 0 ∉ units) (bytes : List UInt8) :
    takeUnits (unitBytes units ++ bytes) = (units ++ (takeUnits bytes).1, (takeUnits bytes).2) := by
  induction units with
  | nil => rfl
  | cons u units ih =>
    rw [List.mem_cons, not_or] at h
    rw [unitBytes_cons, List.cons_append, List.cons_append, takeUnits, ofNat_value_pair,
      if_neg fun hzero => h.1 hzero.symm, ih h.2]
    rfl

/-- **Units are taken** up to the zero unit at their end. -/
theorem takeUnits_unitBytes {units : List UInt16} (h : 0 ∉ units) (rest : List UInt8) :
    takeUnits (unitBytes units ++ 0 :: 0 :: rest) = (units, rest) := by
  rw [takeUnits_append h, show takeUnits (0 :: 0 :: rest) = ([], rest) from rfl, List.append_nil]

/-- **Text is read back** if none of its characters is the one that is written as the end
of text. -/
theorem readText_bytes {s : String} (h : Char.ofNat 0 ∉ s.toList) (rest : List UInt8) :
    readText ((Field.text s).bytes ++ rest) = (some s, rest) := by
  have hbytes : (Field.text s).bytes ++ rest =
      unitBytes (Utf16.encode s.toList) ++ 0 :: 0 :: rest := List.append_assoc _ _ _
  have hlength : ¬ (unitBytes (Utf16.encode s.toList) ++ 0 :: 0 :: rest).length < 2 := by
    rw [List.length_append, List.length_cons, List.length_cons]
    omega
  rw [hbytes, readText, if_neg hlength,
    takeUnits_unitBytes fun hzero => h (Utf16.zero_mem_encode.mp hzero)]
  dsimp only
  rw [Utf16.decode_encode, String.ofList_toList]

/-! ## Layouts -/

/-- A field that is there is not replaced by its default. -/
theorem Read.orElse_of_some {α : Type} {read : Read α} {bytes rest : List UInt8} {a : α}
    (h : read bytes = (some a, rest)) (default : α) : read.orElse default bytes = (a, rest) := by
  rw [Read.orElse, h, Option.getD_some]

/-- The first field of a layout stands before all others. -/
@[simp] theorem layoutBytes_cons_append (field : Field) (fields : List Field)
    (rest : List UInt8) :
    layoutBytes (field :: fields) ++ rest = field.bytes ++ (layoutBytes fields ++ rest) :=
  List.append_assoc _ _ _

@[simp] theorem layoutBytes_nil_append (rest : List UInt8) : layoutBytes [] ++ rest = rest := rfl

end Wire
end RuntimeTrace
