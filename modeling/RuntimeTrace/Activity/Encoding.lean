import RuntimeTrace.Activity.Id
import RuntimeTrace.Activity.Path

/-!
# Writing a path into an identifier

Twelve bytes hold the segments as a stream of half-bytes, high half first:

* `1` to `10` --- an ordinary segment of that value;
* `11` --- the next segment is an overflow segment;
* `12` to `15` --- one to four whole bytes follow, least significant first;
* `0` --- the end.

## Which half is next

A half-byte that is written is never zero, so a byte whose high half is taken is
not zero either, and the writer need not remember which half is next: an empty
byte takes the high half, any other byte the low one.  A `PathWriter` therefore
holds the finished bytes and the byte in progress, and nothing else.

## The free half-byte

Whole bytes start at a byte boundary.  When the length lands in the high half of
a byte, the low half is left over, and values below 4096 keep their top four bits
there: the length is rewritten to `12`, one byte less.  The number of bytes
written after it stays what it was.  So a value from 256 to 4095 is followed by
one byte that is always zero, which the reader has to skip.
-/

namespace RuntimeTrace

/-- A path half written: finished bytes in order, and the byte in progress, zero
until its high half is taken. -/
structure PathWriter where
  finished : List UInt8
  current : UInt8
  deriving DecidableEq, Repr

namespace PathWriter

/-- Nothing written yet. -/
def start : PathWriter := ⟨[], 0⟩

/-- The index of the byte in progress. -/
def position (w : PathWriter) : Nat := w.finished.length

/-- Bytes that the path may take. -/
def capacity : Nat := 12

/-- Writes the next half-byte. -/
def putHalf (w : PathWriter) (half : UInt8) : PathWriter :=
  if w.current = 0 then { w with current := half <<< 4 }
  else ⟨w.finished ++ [w.current ||| half], 0⟩

/-- Ends the byte in progress, as it should read. -/
def close (w : PathWriter) (byte : UInt8) : PathWriter := ⟨w.finished ++ [byte], 0⟩

/-- Writes whole bytes from a byte boundary on, if they fit. -/
def putBytes (w : PathWriter) (width value : Nat) : Option PathWriter :=
  if w.position + width ≤ capacity then
    some ⟨w.finished ++ LittleEndian.bytes width value, 0⟩
  else none

/-- Whole bytes that a value needs. -/
def widthOf (value : UInt32) : Nat :=
  if value.toNat < 0x100 then 1
  else if value.toNat < 0x10000 then 2
  else if value.toNat < 0x1000000 then 3
  else 4

/-- Writes the length of a value, and then its bytes.  A length in a high half
leaves the low half of its byte to the top bits of a value below 4096. -/
def putValue (w : PathWriter) (value : UInt32) : Option PathWriter :=
  let width := widthOf value
  let w := w.putHalf (UInt8.ofNat (11 + width))
  if w.current = 0 then w.putBytes width value.toNat
  else if value.toNat < 4096 then
    (w.close (UInt8.ofNat (0xC0 + value.toNat / 256))).putBytes width (value.toNat % 256)
  else (w.close w.current).putBytes width value.toNat

/-- Writes one segment, if it fits. -/
def putSegment (w : PathWriter) (s : Segment) : Option PathWriter :=
  if capacity ≤ w.position then none
  else if s.overflow then
    if capacity ≤ w.position + 2 then none
    else (w.putHalf 11).putValue s.value
  else if 1 ≤ s.value.toNat ∧ s.value.toNat ≤ 10 then
    some (w.putHalf (UInt8.ofNat s.value.toNat))
  else w.putValue s.value

/-- Writes a list of segments, if they all fit. -/
def putSegments (w : PathWriter) : List Segment → Option PathWriter
  | [] => some w
  | s :: rest =>
    match w.putSegment s with
    | some w' => w'.putSegments rest
    | none => none

/-- The twelve path bytes: what was written, and zeros after it. -/
def toBytes (w : PathWriter) : List UInt8 :=
  (w.finished ++ w.current :: List.replicate capacity 0).take capacity

theorem length_toBytes (w : PathWriter) : w.toBytes.length = capacity := by
  simp only [toBytes, List.length_take, List.length_append, List.length_cons,
    List.length_replicate]
  omega

end PathWriter

namespace ActivityPath

/-- The identifier of a path; none when the segments need more than twelve
bytes. -/
def encode? (path : ActivityPath) : Option ActivityId :=
  match PathWriter.start.putSegments path.segments with
  | some w => some (ActivityId.ofPath w.toBytes w.length_toBytes (path.processId.getD 0))
  | none => none

/-- The identifier of ordinary segments made in a process; process zero is no
process. -/
def encodeIn? (values : List UInt32) (processId : UInt32) : Option ActivityId :=
  encode? { ofValues values with processId := if processId = 0 then none else some processId }

end ActivityPath
end RuntimeTrace
