/-!
# Columns

Counts in reports are set in columns of a minimum width, right-aligned.  A value
wider than its column is written in full.
-/

namespace RuntimeTrace
namespace Text

/-- Right-aligns text in a column of at least `width` characters. -/
def rightAlign (width : Nat) (s : String) : String :=
  String.ofList (List.replicate (width - s.length) ' ') ++ s

/-- A run of spaces. -/
def spaces (n : Nat) : String :=
  String.ofList (List.replicate n ' ')

/-- Joins pieces with a separator between neighbours. -/
def join (separator : String) : List String → String
  | [] => ""
  | [s] => s
  | s :: rest => s ++ separator ++ join separator rest

/-- Splits at every occurrence of a separator; there is always at least one
piece. -/
def splitChars (separator : Char) : List Char → List (List Char)
  | [] => [[]]
  | c :: rest =>
    if c = separator then [] :: splitChars separator rest
    else match splitChars separator rest with
      | piece :: pieces => (c :: piece) :: pieces
      | [] => [[c]]

end Text
end RuntimeTrace
