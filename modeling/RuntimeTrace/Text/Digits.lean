/-!
# Decimal digits

Numbers in text are runs of the ten ASCII digits, with a sign in front where one
is allowed.
-/

namespace RuntimeTrace
namespace Text

/-- The leading digits of a text, and the rest. -/
def takeDigits : List Char → List Nat × List Char
  | [] => ([], [])
  | c :: rest =>
    if c.isDigit then
      let (ds, rest') := takeDigits rest
      ((c.toNat - 48) :: ds, rest')
    else ([], c :: rest)

/-- The number that a list of digits spells. -/
def digitsValue (digits : List Nat) : Nat :=
  digits.foldl (fun n d => n * 10 + d) 0

/-- Reads a sign, which may be missing: whether it is a minus. -/
def takeSign : List Char → Bool × List Char
  | '+' :: rest => (false, rest)
  | '-' :: rest => (true, rest)
  | cs => (false, cs)

/-- Reads a text that is digits and nothing else, at least one. -/
def number? (cs : List Char) : Option Nat :=
  match takeDigits cs with
  | ([], _) => none
  | (digits, []) => some (digitsValue digits)
  | (_, _ :: _) => none

end Text
end RuntimeTrace
