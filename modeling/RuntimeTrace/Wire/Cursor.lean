import RuntimeTrace.Binary64
import RuntimeTrace.LittleEndian
import RuntimeTrace.Text.Utf16

/-!
# Reading event payloads

A payload is a run of fields without lengths or names; their order is all the
structure there is.  A reader takes fields off the front of the bytes.  A field
that is not there in full is absent, and the bytes stay as they were, so a later,
shorter field may still be read from them.

Text is the exception: it ends at a zero unit, or where the bytes end.  Text cut
off by the end of the payload is what was read so far.
-/

namespace RuntimeTrace
namespace Wire

/-- Reading a field: what was read, if anything, and the bytes after it. -/
abbrev Read (α : Type) := List UInt8 → Option α × List UInt8

/-- Reads an integer of so many bytes. -/
def readNat (width : Nat) : Read Nat := fun bytes =>
  if width ≤ bytes.length then
    (some (LittleEndian.value (bytes.take width)), bytes.drop width)
  else (none, bytes)

/-- Applies a function to what was read. -/
def Read.map {α β : Type} (f : α → β) (read : Read α) : Read β := fun bytes =>
  ((read bytes).1.map f, (read bytes).2)

/-- Reads a field, or takes a default where there is none. -/
def Read.orElse {α : Type} (read : Read α) (default : α) (bytes : List UInt8) :
    α × List UInt8 :=
  ((read bytes).1.getD default, (read bytes).2)

/-- An unsigned byte. -/
def readUInt8 : Read UInt8 := Read.map UInt8.ofNat (readNat 1)

/-- An unsigned word of four bytes. -/
def readUInt32 : Read UInt32 := Read.map UInt32.ofNat (readNat 4)

/-- A signed word of four bytes. -/
def readInt32 : Read Int32 := Read.map (fun n => (UInt32.ofNat n).toInt32) (readNat 4)

/-- A signed word of eight bytes. -/
def readInt64 : Read Int64 := Read.map (fun n => (UInt64.ofNat n).toInt64) (readNat 8)

/-- A double. -/
def readBinary64 : Read Binary64 := Read.map (fun n => ⟨UInt64.ofNat n⟩) (readNat 8)

/-- A truth value, four bytes of which any may be set. -/
def readBool : Read Bool := Read.map (fun n => n != 0) (readNat 4)

/-- The units before the first zero unit, and the bytes after that unit.  A last
byte without a partner is left where it is. -/
def takeUnits : List UInt8 → List UInt16 × List UInt8
  | b :: c :: rest =>
    let u := UInt16.ofNat (LittleEndian.value [b, c])
    if u = 0 then ([], rest)
    else
      let (us, rest) := takeUnits rest
      (u :: us, rest)
  | bytes => ([], bytes)

/-- Text up to a zero unit, which is taken too, or to the end of the payload. -/
def readText : Read String := fun bytes =>
  if bytes.length < 2 then (none, bytes)
  else
    let (units, rest) := takeUnits bytes
    (some (String.ofList (Utf16.decode units)), rest)

end Wire
end RuntimeTrace
