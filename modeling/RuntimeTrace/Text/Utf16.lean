/-!
# UTF-16 code units

Event payloads store text as sixteen-bit code units.  A scalar value below
`0x10000` is one unit; any other is a high surrogate followed by a low one.

Every text has exactly one encoding, but not every list of units is one: a
surrogate may stand alone.  Decoding is total all the same, and reads each
unpaired surrogate as one replacement character, so a damaged payload still
shows the text around the damage.
-/

namespace RuntimeTrace
namespace Utf16

/-- The character an unpaired surrogate reads as. -/
def replacement : Char := Char.ofNat 0xFFFD

/-- The units `0xD800` to `0xDBFF`. -/
def isHigh (u : UInt16) : Bool := 0xD800 ≤ u.toNat && u.toNat ≤ 0xDBFF

/-- The units `0xDC00` to `0xDFFF`. -/
def isLow (u : UInt16) : Bool := 0xDC00 ≤ u.toNat && u.toNat ≤ 0xDFFF

/-- The character two paired surrogates stand for. -/
def pair (high low : UInt16) : Char :=
  Char.ofNat (0x10000 + (high.toNat - 0xD800) * 0x400 + (low.toNat - 0xDC00))

/-- The units of one character. -/
def units (c : Char) : List UInt16 :=
  if c.toNat < 0x10000 then [UInt16.ofNat c.toNat]
  else
    let n := c.toNat - 0x10000
    [UInt16.ofNat (0xD800 + n / 0x400), UInt16.ofNat (0xDC00 + n % 0x400)]

/-- The units of a text. -/
def encode (cs : List Char) : List UInt16 := cs.flatMap units

/-- The text a list of units stands for; each unpaired surrogate is replaced. -/
def decode : List UInt16 → List Char
  | [] => []
  | [u] => [if isHigh u || isLow u then replacement else Char.ofNat u.toNat]
  | u :: v :: rest =>
    if isHigh u then
      if isLow v then pair u v :: decode rest
      else replacement :: decode (v :: rest)
    else if isLow u then replacement :: decode (v :: rest)
    else Char.ofNat u.toNat :: decode (v :: rest)

end Utf16
end RuntimeTrace
