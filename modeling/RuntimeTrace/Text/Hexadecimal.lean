/-!
# Hexadecimal text

Identifiers, addresses and byte buffers are shown in base sixteen with lowercase
digits.  Bytes always take two digits, high half first; addresses take as many as
they need.

Reading a buffer is a little more liberal than writing one.  Blanks between
digits are dropped before the digits are paired, both letter cases are read, and
a pair may spend its first place on a plus sign, so `+f` is fifteen.
-/

namespace RuntimeTrace
namespace Hexadecimal

/-- The lowercase digit of a value below sixteen. -/
def digit (n : Nat) : Char :=
  if n < 10 then Char.ofNat (48 + n) else Char.ofNat (87 + n)

/-- The value of a digit in either letter case. -/
def digitValue? (c : Char) : Option Nat :=
  if '0' ≤ c ∧ c ≤ '9' then some (c.toNat - 48)
  else if 'a' ≤ c ∧ c ≤ 'f' then some (c.toNat - 87)
  else if 'A' ≤ c ∧ c ≤ 'F' then some (c.toNat - 55)
  else none

/-- The two digits of a byte, high half first. -/
def byteDigits (b : UInt8) : List Char :=
  [digit (b.toNat / 16), digit (b.toNat % 16)]

/-- A byte buffer as text, two digits a byte. -/
def encode (bytes : List UInt8) : String :=
  String.ofList (bytes.flatMap byteDigits)

/-- A number without leading zeros. -/
def ofNat (n : Nat) : String :=
  String.ofList (Nat.toDigits 16 n)

/-- An address or type id, marked as hexadecimal. -/
def address (a : UInt64) : String :=
  "0x" ++ ofNat a.toNat

/-- The blanks that may stand between digits: space, tab, line feed, form feed
and carriage return. -/
def isBlank (c : Char) : Bool :=
  c = ' ' || c = '\t' || c = '\n' || c = Char.ofNat 12 || c = '\r'

/-- Reads characters two at a time, each a digit. -/
def bytes? : List Char → Option (List UInt8)
  | [] => some []
  | [_] => none
  | high :: low :: rest => do
    let h ← digitValue? high
    let l ← digitValue? low
    let bs ← bytes? rest
    return UInt8.ofNat (16 * h + l) :: bs

/-- The byte a pair of characters stands for.  A plus sign may take the place of
the high digit. -/
def pairValue? (high low : Char) : Option UInt8 :=
  match digitValue? high, digitValue? low with
  | some h, some l => some (UInt8.ofNat (16 * h + l))
  | none, some l => if high = '+' then some (UInt8.ofNat l) else none
  | _, none => none

/-- Reads characters two at a time; a character left over is an error. -/
def pairs? : List Char → Option (List UInt8)
  | [] => some []
  | [_] => none
  | high :: low :: rest => do
    let b ← pairValue? high low
    let bs ← pairs? rest
    return b :: bs

/-- Reads a byte buffer, dropping blanks first. -/
def decode? (text : String) : Option (List UInt8) :=
  pairs? (text.toList.filter fun c => !isBlank c)

end Hexadecimal
end RuntimeTrace
