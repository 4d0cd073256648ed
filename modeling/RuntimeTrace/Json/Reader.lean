import RuntimeTrace.Json.Number
import RuntimeTrace.Text.Hexadecimal

/-!
# Reading JSON

The reader takes exactly the texts of the JSON grammar: no comments, no trailing
commas, no bare control characters in strings, nothing after the value.  What is
well-formed but has no value reads as illegible.

Every function returns the rest of the text.  The recursion is bounded by the
length of the text, which no call can exceed because each takes at least one
character.
-/

namespace RuntimeTrace
namespace Json

/-- Skips the four characters that may stand between tokens. -/
def skipSpace : List Char → List Char
  | [] => []
  | c :: rest =>
    if c = ' ' || c = '\n' || c = '\t' || c = '\r' then skipSpace rest else c :: rest

/-- Reads four hexadecimal digits. -/
def hex4? : List Char → Option (Nat × List Char)
  | a :: b :: c :: d :: rest => do
    let a ← Hexadecimal.digitValue? a
    let b ← Hexadecimal.digitValue? b
    let c ← Hexadecimal.digitValue? c
    let d ← Hexadecimal.digitValue? d
    return (((a * 16 + b) * 16 + c) * 16 + d, rest)
  | _ => none

/-- The character that a one-letter escape stands for. -/
def escape? (c : Char) : Option Char :=
  if c = '"' then some '"'
  else if c = '\\' then some '\\'
  else if c = '/' then some '/'
  else if c = 'b' then some (Char.ofNat 8)
  else if c = 'f' then some (Char.ofNat 12)
  else if c = 'n' then some '\n'
  else if c = 'r' then some '\r'
  else if c = 't' then some '\t'
  else none

/-- What an escape with four digits stands for. -/
inductive Unit16 where
  /-- A character. -/
  | scalar (c : Char)
  /-- Half a surrogate pair without its other half. -/
  | lone

/-- Reads the digits of an escape, and of the escape after it when the two are a
surrogate pair. -/
def readUnit (cs : List Char) : Option (Unit16 × List Char) :=
  match hex4? cs with
  | none => none
  | some (u, rest) =>
    if 0xD800 ≤ u && u ≤ 0xDBFF then
      match rest with
      | '\\' :: 'u' :: after =>
        match hex4? after with
        | none => none
        | some (v, after) =>
          if 0xDC00 ≤ v && v ≤ 0xDFFF then
            some (.scalar (Char.ofNat (0x10000 + (u - 0xD800) * 0x400 + (v - 0xDC00))), after)
          else some (.lone, rest)
      | _ => some (.lone, rest)
    else if 0xDC00 ≤ u && u ≤ 0xDFFF then some (.lone, rest)
    else some (.scalar (Char.ofNat u), rest)

/-- Reads a string after its opening quote: its characters, or nothing if half a
surrogate pair stands in it. -/
def readStringBody : Nat → List Char → Bool → List Char → Option (Option String × List Char)
  | 0, _, _, _ => none
  | fuel + 1, acc, legible, cs =>
    match cs with
    | [] => none
    | '"' :: rest => some (if legible then some (String.ofList acc.reverse) else none, rest)
    | '\\' :: 'u' :: rest =>
      match readUnit rest with
      | some (.scalar c, rest) => readStringBody fuel (c :: acc) legible rest
      | some (.lone, rest) => readStringBody fuel acc false rest
      | none => none
    | '\\' :: c :: rest =>
      match escape? c with
      | some c => readStringBody fuel (c :: acc) legible rest
      | none => none
    | c :: rest =>
      if c.toNat < 0x20 || c = '\\' then none else readStringBody fuel (c :: acc) legible rest

/-- Reads a string after its opening quote. -/
def readString (cs : List Char) : Option (Option String × List Char) :=
  readStringBody (cs.length + 1) [] true cs

/-- Takes a word off the front of a text. -/
def takeWord : List Char → List Char → Option (List Char)
  | [], cs => some cs
  | _ :: _, [] => none
  | w :: word, c :: cs => if w = c then takeWord word cs else none

mutual

/-- Reads a value. -/
def readValue : Nat → List Char → Option (Json × List Char)
  | 0, _ => none
  | fuel + 1, cs =>
    match skipSpace cs with
    | [] => none
    | c :: rest =>
      if c = '{' then
        match skipSpace rest with
        | '}' :: rest => some (.object [], rest)
        | rest => readMembers fuel rest
      else if c = '[' then
        match skipSpace rest with
        | ']' :: rest => some (.array [], rest)
        | rest => readItems fuel rest
      else if c = '"' then
        match readString rest with
        | some (some s, rest) => some (.string s, rest)
        | some (none, rest) => some (.illegible, rest)
        | none => none
      else if c = 't' then (takeWord ['r', 'u', 'e'] rest).map fun rest => (.bool true, rest)
      else if c = 'f' then (takeWord ['a', 'l', 's', 'e'] rest).map fun rest => (.bool false, rest)
      else if c = 'n' then (takeWord ['u', 'l', 'l'] rest).map fun rest => (.null, rest)
      else readNumber (c :: rest)

/-- Reads the items of an array up to its closing bracket. -/
def readItems : Nat → List Char → Option (Json × List Char)
  | 0, _ => none
  | fuel + 1, cs =>
    match readValue fuel cs with
    | none => none
    | some (v, rest) =>
      match skipSpace rest with
      | ']' :: rest => some (.array [v], rest)
      | ',' :: rest =>
        match readItems fuel rest with
        | some (.array vs, rest) => some (.array (v :: vs), rest)
        | _ => none
      | _ => none

/-- Reads the members of an object up to its closing brace.  An illegible key
makes the whole object illegible. -/
def readMembers : Nat → List Char → Option (Json × List Char)
  | 0, _ => none
  | fuel + 1, cs =>
    match skipSpace cs with
    | '"' :: rest =>
      match readString rest with
      | none => none
      | some (key, rest) =>
        match skipSpace rest with
        | ':' :: rest =>
          match readValue fuel rest with
          | none => none
          | some (v, rest) =>
            let head := key.map fun k => (k, v)
            match skipSpace rest with
            | '}' :: rest => some (joinMember head (.object []), rest)
            | ',' :: rest =>
              match readMembers fuel rest with
              | some (tail, rest) => some (joinMember head tail, rest)
              | none => none
            | _ => none
        | _ => none
    | _ => none
where
  /-- Puts a member in front of those that follow it. -/
  joinMember : Option (String × Json) → Json → Json
    | some m, .object ms => .object (m :: ms)
    | _, _ => .illegible

end

/-- Reads a text that is one value and nothing else. -/
def parse (text : String) : Option Json :=
  let cs := text.toList
  match readValue (2 * cs.length + 2) cs with
  | some (v, rest) => if skipSpace rest = [] then some v else none
  | none => none

end Json
end RuntimeTrace
