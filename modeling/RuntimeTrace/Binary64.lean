/-!
# Binary64 numbers

Durations reported by the runtime, and every time shown in other units than
nanoseconds, are IEEE 754 double precision numbers.  They are kept as their
sixty-four bit words, so that a value read from a payload is the value that was
written, not-a-number payloads included, and equality is equality of words.

## Arithmetic without a floating-point unit

The few operations that are needed --- an integer to a double, a quotient, a
product --- are each "the exact result, rounded once".  The exact result of every
one of them is a ratio of two natural numbers, so a single function does all the
rounding: `ofRatio` takes the double nearest to `num / den`, a tie to the even
significand, and infinity from half a unit above the largest double on.
Arithmetic of this kind is ordinary `Nat` arithmetic, which the kernel can
evaluate and a proof can follow.
-/

namespace RuntimeTrace

/-- A double precision number, as its word. -/
structure Binary64 where
  bits : UInt64
  deriving DecidableEq, Repr, Inhabited

namespace Binary64

/-- Positive zero. -/
def zero : Binary64 := ⟨0⟩

/-- Positive infinity. -/
def infinity : Binary64 := ⟨0x7FF0000000000000⟩

/-- The not-a-number that reading the word `nan` gives. -/
def nan : Binary64 := ⟨0x7FF8000000000000⟩

/-- The place of the sign in a word. -/
def signBit : Nat := 0x8000000000000000

/-- The leading bit of a significand, which a word does not store; at its place
the exponent begins. -/
def leadingBit : Nat := 0x10000000000000

/-- The sign is minus. -/
def isNegative (x : Binary64) : Bool := signBit ≤ x.bits.toNat

/-- The word without its sign bit. -/
def magnitude (x : Binary64) : Nat := x.bits.toNat % signBit

/-- The biased exponent. -/
def exponent (x : Binary64) : Nat := x.magnitude / leadingBit

/-- The stored bits of the significand. -/
def fraction (x : Binary64) : Nat := x.magnitude % leadingBit

/-- Neither infinite nor a not-a-number. -/
def isFinite (x : Binary64) : Bool := x.exponent < 2047

/-- A not-a-number. -/
def isNaN (x : Binary64) : Bool := x.exponent == 2047 && x.fraction != 0

/-- Either zero. -/
def isZero (x : Binary64) : Bool := x.magnitude == 0

/-- The number with its sign bit turned over. -/
def negate (x : Binary64) : Binary64 := ⟨x.bits ^^^ 0x8000000000000000⟩

/-- The significand as an integer, the leading bit included. -/
def significand (x : Binary64) : Nat :=
  if x.exponent = 0 then x.fraction else x.fraction + leadingBit

/-- Binary exponent of the significand's last place, raised by 1074 so that it
is a natural number. -/
def place (x : Binary64) : Nat := x.exponent - 1

/-- Numerator of a finite number's absolute value. -/
def numerator (x : Binary64) : Nat := x.significand <<< (x.place - 1074)

/-- Denominator of a finite number's absolute value, a power of two. -/
def denominator (x : Binary64) : Nat := 1 <<< (1074 - x.place)

/-- The quotient of two naturals rounded to the nearest integer, a tie to even. -/
def roundDiv (num den : Nat) : Nat :=
  let q := num / den
  let r := num % den
  if 2 * r > den || (2 * r == den && q % 2 == 1) then q + 1 else q

/-- `num / den` with its last place at `2 ^ (place - 1074)`, rounded to an
integer number of such places. -/
def scaledRound (num den place : Nat) : Nat :=
  if place ≤ 1074 then roundDiv (num <<< (1074 - place)) den
  else roundDiv num (den <<< (place - 1074))

/-- `num / den` in places of `2 ^ (place - 1074)` reaches the leading bit. -/
def fillsSignificand (num den place : Nat) : Bool :=
  if place ≤ 1074 then leadingBit * den ≤ num <<< (1074 - place)
  else (leadingBit * den) <<< (place - 1074) ≤ num

/-- The place at which `num / den` has a significand of fifty-three bits, or the
smallest place of all. -/
def placeFor (num den : Nat) : Nat :=
  let high := num.log2 + 1074 - den.log2 - 52
  if high ≠ 0 && !fillsSignificand num den high then high - 1 else high

/-- **The double nearest to a ratio of naturals**, a tie to the even significand.
The word of a number with significand `m` and place `p` is `p * 2 ^ 52 + m`, also
when rounding carried `m` up to `2 ^ 53`; from the word of infinity on it is
infinity. -/
def ofRatio (num den : Nat) : Binary64 :=
  if num = 0 || den = 0 then zero
  else
    let p := placeFor num den
    let word := p * leadingBit + scaledRound num den p
    if infinity.bits.toNat ≤ word then infinity else ⟨UInt64.ofNat word⟩

/-- The double nearest to a natural number. -/
def ofNat (n : Nat) : Binary64 := ofRatio n 1

/-- The double nearest to an integer. -/
def ofInt : Int → Binary64
  | .ofNat n => ofNat n
  | .negSucc n => (ofNat (n + 1)).negate

/-- A non-negative finite number times a natural that is itself a double. -/
def mulNat (x : Binary64) (n : Nat) : Binary64 := ofRatio (x.numerator * n) x.denominator

/-- A non-negative finite number divided by a natural that is itself a double. -/
def divNat (x : Binary64) (n : Nat) : Binary64 := ofRatio x.numerator (x.denominator * n)

/-- The product of two non-negative finite numbers. -/
def mul (x y : Binary64) : Binary64 :=
  ofRatio (x.numerator * y.numerator) (x.denominator * y.denominator)

/-- The quotient of two non-negative finite numbers, the second not zero. -/
def div (x y : Binary64) : Binary64 :=
  ofRatio (x.numerator * y.denominator) (x.denominator * y.numerator)

/-- The integral part, held below `2 ^ 64`; negative numbers and
not-a-numbers give zero. -/
def toUInt64 (x : Binary64) : UInt64 :=
  if x.isNaN || x.isNegative then 0
  else if !x.isFinite then 0xFFFFFFFFFFFFFFFF
  else UInt64.ofNat (min (x.numerator / x.denominator) (UInt64.size - 1))

/-! ## Fixed decimal places -/

/-- A natural number with the decimal point `places` digits from the right. -/
def pointed (places scaled : Nat) : String :=
  if places = 0 then toString scaled
  else
    let digits := toString (scaled % Nat.pow 10 places)
    let padding := String.ofList (List.replicate (places - digits.length) '0')
    toString (scaled / Nat.pow 10 places) ++ "." ++ padding ++ digits

/-- The text of a non-negative finite number with exactly `places` digits after
the point: the exact binary value, correctly rounded, a tie to the even digit. -/
def fixed (places : Nat) (x : Binary64) : String :=
  pointed places (roundDiv (x.numerator * Nat.pow 10 places) x.denominator)

end Binary64
end RuntimeTrace
