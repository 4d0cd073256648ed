import RuntimeTrace.LittleEndian
import RuntimeTrace.Text.Hexadecimal

/-!
# Activity identifiers

The runtime tags every event with the sixteen bytes of the activity it belongs
to.  Most identifiers are *paths* in disguise: twelve bytes that spell a list of
small integers, and four bytes of checksum over them.  The rest are random, and
nothing can be read off them.

This file holds what is true of both kinds: the bytes, the checksum they would
need to have, and their text.

## The text form

An identifier is written as a GUID, thirty-two digits in groups of eight, four,
four, four and twelve.  The first three groups are little-endian fields, so the
digits do not stand in the order of the bytes; `mixedEndian` is the change of
order, and it is its own inverse.

Reading is strict about the dashes and the number of digits, and liberal about
letter case and one pair of braces around the whole.
-/

namespace RuntimeTrace

/-- A sixteen-byte activity identifier, in memory order. -/
structure ActivityId where
  bytes : List UInt8
  length_bytes : bytes.length = 16
  deriving DecidableEq

/-- Why a text is not an activity identifier. -/
inductive ActivityIdError where
  /-- The text is not of the GUID form. -/
  | notGuid
  deriving DecidableEq

/-- The wording of the error. -/
def ActivityIdError.message : ActivityIdError → String
  | .notGuid => "expected a GUID of the form xxxxxxxx-xxxx-xxxx-xxxx-xxxxxxxxxxxx"

namespace ActivityId

/-- The identifier of no activity. -/
def nil : ActivityId := ⟨List.replicate 16 0, rfl⟩

instance : Inhabited ActivityId := ⟨nil⟩

/-- Sixteen bytes as an identifier. -/
def ofBytes? (bytes : List UInt8) : Option ActivityId :=
  if h : bytes.length = 16 then some ⟨bytes, h⟩ else none

/-- Whether this is the identifier of no activity. -/
def isNil (id : ActivityId) : Bool := id.bytes.all (· == 0)

/-! ## The checksum -/

/-- The bytes that spell the segments of a path. -/
def pathBytes (id : ActivityId) : List UInt8 := id.bytes.take 12

/-- The checksum the identifier carries. -/
def checksum (id : ActivityId) : UInt32 :=
  UInt32.ofNat (LittleEndian.value (id.bytes.drop 12))

/-- The checksum twelve path bytes should carry: their three little-endian words
and a fixed seed, added modulo `2 ^ 32`. -/
def expectedChecksum (path : List UInt8) : UInt32 :=
  UInt32.ofNat (LittleEndian.value (path.take 4)) +
    UInt32.ofNat (LittleEndian.value ((path.drop 4).take 4)) +
    UInt32.ofNat (LittleEndian.value ((path.drop 8).take 4)) + 0x599D99AD

/-- Twelve path bytes with their checksum, into which a process id is folded. -/
def ofPath (path : List UInt8) (h : path.length = 12) (processId : UInt32) : ActivityId where
  bytes := path ++ LittleEndian.bytes 4 (expectedChecksum path ^^^ processId).toNat
  length_bytes := by simp [h]

/-! ## Text -/

/-- Turns round the byte order of the three leading groups of sixteen bytes. -/
def mixedEndian : List UInt8 → List UInt8
  | [b0, b1, b2, b3, b4, b5, b6, b7, b8, b9, b10, b11, b12, b13, b14, b15] =>
    [b3, b2, b1, b0, b5, b4, b7, b6, b8, b9, b10, b11, b12, b13, b14, b15]
  | bytes => bytes

/-- Puts the four dashes of a GUID between thirty-two digits. -/
def dashed (digits : List Char) : List Char :=
  digits.take 8 ++ '-' :: (digits.drop 8).take 4 ++ '-' :: (digits.drop 12).take 4 ++
    '-' :: (digits.drop 16).take 4 ++ '-' :: digits.drop 20

/-- The GUID text of an identifier, in lowercase. -/
def text (id : ActivityId) : String :=
  String.ofList (dashed ((mixedEndian id.bytes).flatMap Hexadecimal.byteDigits))

/-- Takes off a pair of braces around a text, if both are there. -/
def unbrace : List Char → List Char
  | '{' :: rest => if rest.getLast? = some '}' then rest.dropLast else '{' :: rest
  | cs => cs

/-- A text as long as a GUID, with dashes where a GUID has them. -/
def hasGuidShape (cs : List Char) : Bool :=
  cs.length == 36 && cs[8]? == some '-' && cs[13]? == some '-' && cs[18]? == some '-' &&
    cs[23]? == some '-'

/-- Reads a GUID: of the right shape, and all that is not a dash is thirty-two
hexadecimal digits. -/
def parse (s : String) : Except ActivityIdError ActivityId :=
  let cs := unbrace s.toList
  if hasGuidShape cs then
    match Hexadecimal.bytes? (cs.filter (· != '-')) with
    | some bytes =>
      match ofBytes? (mixedEndian bytes) with
      | some id => .ok id
      | none => .error .notGuid
    | none => .error .notGuid
  else .error .notGuid

/-- The text that names the kind of value too. -/
def debugText (id : ActivityId) : String := "ActivityId(" ++ id.text ++ ")"

end ActivityId
end RuntimeTrace
