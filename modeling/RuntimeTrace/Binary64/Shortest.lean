import RuntimeTrace.Binary64

/-!
# Shortest decimals

A double is written with the fewest digits that read back as the same double,
and of those with the digits nearest to its exact value.

Every double owns an interval of reals, the ones that round to it; a tie belongs
to the even significand, so the end points belong to a double exactly when its
significand is even.  A decimal reads back as the double when it lies in that
interval.  So the search tries one digit, two digits, and so on, and on each grid
only the two decimals next to the exact value: when any decimal of a grid lies in
the interval, one of those two does.  All comparisons are between integers over a
common denominator.
-/

namespace RuntimeTrace
namespace Binary64

/-- A decimal, `digits * 10 ^ exponent`. -/
structure Decimal where
  digits : Nat
  exponent : Int
  deriving DecidableEq, Repr

namespace Decimal

/-- Drops trailing zeros of the digits, at most `fuel` of them. -/
def strip : Nat → Decimal → Decimal
  | 0, d => d
  | fuel + 1, d =>
    if d.digits ≠ 0 && d.digits % 10 == 0 then strip fuel ⟨d.digits / 10, d.exponent + 1⟩
    else d

end Decimal

/-- The interval of a finite non-zero double in quarters of its last place: the
lower end, the value and the upper end.  Below a power of two the gap is half as
wide. -/
def quarters (x : Binary64) : Nat × Nat × Nat :=
  let m := x.significand
  let low := if x.fraction = 0 && 1 < x.exponent then 4 * m - 1 else 4 * m - 2
  (low, 4 * m, 4 * m + 2)

/-- Both sides of a comparison of `c * 10 ^ k` with `q` quarters of the last
place of `x`, cleared of denominators. -/
def cleared (x : Binary64) (c : Nat) (k : Int) (q : Nat) : Nat × Nat :=
  ((c * Nat.pow 10 k.toNat) <<< (1076 - x.place), (q * Nat.pow 10 (-k).toNat) <<< (x.place - 1076))

/-- Whether `c * 10 ^ k` reads back as `x`. -/
def ownsDecimal (x : Binary64) (c : Nat) (k : Int) : Bool :=
  let (low, _, high) := x.quarters
  let below := cleared x c k low
  let above := cleared x c k high
  if x.significand % 2 == 0 then below.2 ≤ below.1 && above.1 ≤ above.2
  else below.2 < below.1 && above.1 < above.2

/-- The largest `c` with `c * 10 ^ k` at most the value. -/
def floorAt (x : Binary64) (k : Int) : Nat :=
  let sides := cleared x 1 k x.quarters.2.1
  sides.2 / sides.1

/-- The remainder left by `floorAt`, against the whole grid step. -/
def remainderAt (x : Binary64) (k : Int) : Nat × Nat :=
  let sides := cleared x 1 k x.quarters.2.1
  (sides.2 % sides.1, sides.1)

/-- The nearest decimal on the grid of `10 ^ k` that reads back as `x`. -/
def onGrid? (x : Binary64) (k : Int) : Option Nat :=
  let c := x.floorAt k
  let (r, whole) := x.remainderAt k
  let lower := x.ownsDecimal c k
  let upper := x.ownsDecimal (c + 1) k
  if lower && upper then
    some (if 2 * r < whole || (2 * r == whole && c % 2 == 0) then c else c + 1)
  else if lower then some c
  else if upper then some (c + 1)
  else none

/-- Tries finer and finer grids. -/
def search (x : Binary64) : Nat → Int → Decimal
  | 0, k => ⟨x.floorAt k, k⟩
  | fuel + 1, k =>
    match x.onGrid? k with
    | some c => ⟨c, k⟩
    | none => search x fuel (k - 1)

/-- The shortest decimal of a finite non-zero double.  The coarsest grid tried
has the value well below one step; seventeen digits always suffice. -/
def shortest (x : Binary64) : Decimal :=
  let binary : Int := (x.significand.log2 : Int) + x.place - 1074
  let start : Int := binary * 30103 / 100000 + 2
  (x.search 22 start).strip 22

/-- The digits of a natural number with a point after the first `whole` of
them. -/
def splitPoint (digits : List Char) (whole : Nat) : List Char :=
  digits.take whole ++ '.' :: digits.drop whole

/-- A non-negative finite double: positional from `1e-5` up to below `1e16`, with
at least one digit on each side of the point; otherwise one digit before the
point and a power of ten. -/
def magnitudeText (x : Binary64) : String :=
  if x.isZero then "0.0"
  else
    let d := x.shortest
    let digits := (toString d.digits).toList
    let point : Int := digits.length + d.exponent
    if 0 ≤ d.exponent && point ≤ 16 then
      String.ofList (digits ++ List.replicate d.exponent.toNat '0' ++ ['.', '0'])
    else if 0 < point && point ≤ 16 then
      String.ofList (splitPoint digits point.toNat)
    else if -5 < point && point ≤ 0 then
      String.ofList ('0' :: '.' :: List.replicate (-point).toNat '0' ++ digits)
    else
      let lead := if digits.length = 1 then digits else splitPoint digits 1
      String.ofList lead ++ "e" ++ toString (point - 1)

/-- The shortest text of a finite double. -/
def text (x : Binary64) : String :=
  if x.isNegative then "-" ++ magnitudeText x else magnitudeText x

end Binary64
end RuntimeTrace
