import RuntimeTrace.Binary64
import RuntimeTrace.Text.Digits

/-!
# Reading decimal numerals

A numeral is a sign, digits with a point somewhere among them or at either end,
and an exponent; sign, point and exponent may be missing.  The words `inf`,
`infinity` and `nan`, in any case, are numerals too.

The value is the double nearest to the decimal, rounded once, however many digits
there are.
-/

namespace RuntimeTrace
namespace Binary64

/-- The double nearest to `digits * 10 ^ exponent`.  Far outside the range of
doubles the power of ten is not worked out. -/
def ofDecimal (digits : Nat) (exponent : Int) : Binary64 :=
  let leading : Int := (toString digits).length + exponent
  if digits = 0 || leading < -400 then zero
  else if 400 < leading then infinity
  else ofRatio (digits * Nat.pow 10 exponent.toNat) (Nat.pow 10 (-exponent).toNat)

/-- Reads an exponent, which may be missing. -/
def exponent? : List Char → Option Int
  | [] => some 0
  | c :: rest =>
    if c = 'e' || c = 'E' then
      let (minus, digits) := Text.takeSign rest
      (Text.number? digits).map fun n => if minus then -(n : Int) else n
    else none

/-- Reads a numeral without its sign that is not a word. -/
def unsigned? (cs : List Char) : Option Binary64 :=
  let (whole, rest) := Text.takeDigits cs
  let (fraction, rest) := match rest with
    | '.' :: rest => Text.takeDigits rest
    | rest => ([], rest)
  match whole ++ fraction with
  | [] => none
  | digits =>
    (exponent? rest).map fun e => ofDecimal (Text.digitsValue digits) (e - fraction.length)

/-- Reads a word. -/
def word? (cs : List Char) : Option Binary64 :=
  let lower := cs.map Char.toLower
  if lower = "inf".toList || lower = "infinity".toList then some infinity
  else if lower = "nan".toList then some nan
  else none

/-- Reads a numeral. -/
def parse? (text : String) : Option Binary64 :=
  let (minus, cs) := Text.takeSign text.toList
  ((unsigned? cs).or (word? cs)).map fun x => if minus then x.negate else x

end Binary64
end RuntimeTrace
