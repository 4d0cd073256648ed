import RuntimeTrace.Json.Value
import RuntimeTrace.Text.Digits

/-!
# Reading numbers

The grammar of a number is that of JSON.  Its value is found in two steps.  The
digits are gathered into a *significand* below `2 ^ 64` and a power of ten: once
the next integer digit would not fit, it and the integer digits after it only
raise the power, and fraction digits that do not fit are dropped.  Then the
significand is rounded to a double and multiplied or divided by one power of ten,
itself a double.

This takes up to two roundings, so a number with many digits may come out one
place off the nearest double.  What is read is a measurement in milliseconds,
where that does not matter; what does matter is that it is always the same.

A number without fraction and exponent that fits sixty-four bits is an integer.
Minus zero is not, since no integer has its sign.
-/

namespace RuntimeTrace
namespace Json

open Text (takeDigits takeSign digitsValue)

/-- Digits gathered so far: their value, the power of ten they stand at, and
whether the significand is full. -/
structure Gathered where
  significand : Nat
  exponent : Int
  full : Bool

/-- Takes in a digit before the point. -/
def Gathered.pushInteger (g : Gathered) (d : Nat) : Gathered :=
  if g.full then { g with exponent := g.exponent + 1 }
  else if g.significand * 10 + d < UInt64.size then
    { g with significand := g.significand * 10 + d }
  else { g with exponent := g.exponent + 1, full := true }

/-- Takes in a digit after the point. -/
def Gathered.pushFraction (g : Gathered) (d : Nat) : Gathered :=
  if g.full then g
  else if g.significand * 10 + d < UInt64.size then
    { g with significand := g.significand * 10 + d, exponent := g.exponent - 1 }
  else { g with full := true }

/-- The digits before the point. -/
def gatherInteger (digits : List Nat) : Gathered :=
  digits.foldl Gathered.pushInteger ⟨0, 0, false⟩

/-- The digits after the point, which may again fill up the significand. -/
def gatherFraction (g : Gathered) (digits : List Nat) : Gathered :=
  digits.foldl Gathered.pushFraction { g with full := false }

/-- A power of ten as a double. -/
def powerOfTen (k : Nat) : Binary64 := Binary64.ofNat (Nat.pow 10 k)

/-- Divides by a power of ten, in steps of at most `10 ^ 308`. -/
def divideByPower (f : Binary64) (k : Nat) : Binary64 :=
  if k ≤ 308 then f.div (powerOfTen k)
  else if f.isZero then f
  else divideByPower (f.div (powerOfTen 308)) (k - 308)
termination_by k
decreasing_by omega

/-- The double of a significand and a power of ten; none beyond the range of
doubles. -/
def scale? (significand : Nat) (exponent : Int) : Option Binary64 :=
  let f := Binary64.ofNat significand
  if exponent < 0 then some (divideByPower f (-exponent).toNat)
  else if f.isZero then some f
  else if exponent ≤ 308 then
    let scaled := f.mul (powerOfTen exponent.toNat)
    if scaled.isFinite then some scaled else none
  else none

/-- The value of a number with a fraction, an exponent or too many digits. -/
def floatValue (negative : Bool) (significand : Nat) (exponent : Int) : Json :=
  match scale? significand exponent with
  | some f => .float (if negative then f.negate else f)
  | none => .illegible

/-- The value of a number that is written as an integer. -/
def integerValue (negative : Bool) (g : Gathered) : Json :=
  if g.full then floatValue negative g.significand g.exponent
  else if !negative then .int g.significand
  else if g.significand = 0 || UInt64.size / 2 < g.significand then floatValue true g.significand 0
  else .int (-(g.significand : Int))

/-- Reads what may follow the mantissa. -/
def readExponent (negative : Bool) (g : Gathered) (isInteger : Bool) (cs : List Char) :
    Option (Json × List Char) :=
  match cs with
  | c :: rest =>
    if c = 'e' || c = 'E' then
      let (minus, rest) := takeSign rest
      match takeDigits rest with
      | ([], _) => none
      | (digits, rest) =>
        let e : Int := digitsValue digits
        some (floatValue negative g.significand (g.exponent + if minus then -e else e), rest)
    else if isInteger then some (integerValue negative g, c :: rest)
    else some (floatValue negative g.significand g.exponent, c :: rest)
  | [] =>
    if isInteger then some (integerValue negative g, [])
    else some (floatValue negative g.significand g.exponent, [])

/-- Reads a number after its sign. -/
def readUnsigned (negative : Bool) (cs : List Char) : Option (Json × List Char) :=
  match takeDigits cs with
  | ([], _) => none
  | (0 :: _ :: _, _) => none
  | (digits, rest) =>
    let g := gatherInteger digits
    match rest with
    | '.' :: rest =>
      match takeDigits rest with
      | ([], _) => none
      | (fraction, rest) => readExponent negative (gatherFraction g fraction) false rest
    | rest => readExponent negative g true rest

/-- Reads a number. -/
def readNumber : List Char → Option (Json × List Char)
  | '-' :: rest => readUnsigned true rest
  | cs => readUnsigned false cs

end Json
end RuntimeTrace
