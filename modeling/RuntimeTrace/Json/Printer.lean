import RuntimeTrace.Binary64.Shortest
import RuntimeTrace.Json.Value
import RuntimeTrace.Text.Column
import RuntimeTrace.Text.Hexadecimal

/-!
# Printing JSON

Values are printed on one line without spaces, or spread over lines with two
spaces a level.  Quotes, backslashes and control characters are escaped, the
five common controls by a letter; all other characters are printed as they are.
-/

namespace RuntimeTrace
namespace Json

/-- A character inside a string. -/
def escaped (c : Char) : List Char :=
  if c = '"' then ['\\', '"']
  else if c = '\\' then ['\\', '\\']
  else if c = Char.ofNat 8 then ['\\', 'b']
  else if c = '\t' then ['\\', 't']
  else if c = '\n' then ['\\', 'n']
  else if c = Char.ofNat 12 then ['\\', 'f']
  else if c = '\r' then ['\\', 'r']
  else if c.toNat < 0x20 then
    ['\\', 'u', '0', '0'] ++ Hexadecimal.byteDigits (UInt8.ofNat c.toNat)
  else [c]

/-- A string in quotes. -/
def quoted (s : String) : String :=
  String.ofList ('"' :: s.toList.flatMap escaped ++ ['"'])

/-- A value without parts; an illegible one has no better text than `null`. -/
def scalarText : Json → String
  | .bool true => "true"
  | .bool false => "false"
  | .int n => toString n
  | .float x => if x.isFinite then x.text else "null"
  | .string s => quoted s
  | _ => "null"

mutual

/-- A value on one line. -/
def compact : Json → String
  | .array items => "[" ++ compactItems items ++ "]"
  | .object members => "\x7b" ++ compactMembers members ++ "\x7d"
  | v => scalarText v

/-- Items between commas. -/
def compactItems : List Json → String
  | [] => ""
  | [v] => compact v
  | v :: w :: rest => compact v ++ "," ++ compactItems (w :: rest)

/-- Members between commas. -/
def compactMembers : List (String × Json) → String
  | [] => ""
  | [(k, v)] => quoted k ++ ":" ++ compact v
  | (k, v) :: w :: rest => quoted k ++ ":" ++ compact v ++ "," ++ compactMembers (w :: rest)

end

mutual

/-- A value over several lines, `level` steps in. -/
def pretty (level : Nat) : Json → String
  | .array [] => "[]"
  | .array (v :: rest) =>
    "[" ++ prettyItems (level + 1) (v :: rest) ++ "\n" ++ Text.spaces (2 * level) ++ "]"
  | .object [] => "\x7b\x7d"
  | .object (m :: rest) =>
    "\x7b" ++ prettyMembers (level + 1) (m :: rest) ++ "\n" ++ Text.spaces (2 * level) ++ "\x7d"
  | v => scalarText v

/-- Items, each on a line of its own. -/
def prettyItems (level : Nat) : List Json → String
  | [] => ""
  | [v] => "\n" ++ Text.spaces (2 * level) ++ pretty level v
  | v :: w :: rest =>
    "\n" ++ Text.spaces (2 * level) ++ pretty level v ++ "," ++ prettyItems level (w :: rest)

/-- Members, each on a line of its own. -/
def prettyMembers (level : Nat) : List (String × Json) → String
  | [] => ""
  | [(k, v)] => "\n" ++ Text.spaces (2 * level) ++ quoted k ++ ": " ++ pretty level v
  | (k, v) :: w :: rest =>
    "\n" ++ Text.spaces (2 * level) ++ quoted k ++ ": " ++ pretty level v ++ "," ++
      prettyMembers level (w :: rest)

end

end Json
end RuntimeTrace
