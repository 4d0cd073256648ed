/-!
# Lines

A line ends with a line feed, and a carriage return before the line feed belongs
to the ending.  The last line may lack its ending, and nothing after the last
ending is no line at all.
-/

namespace RuntimeTrace
namespace Text

/-- Cuts a list after every occurrence of a separator, which stays with the piece
it ends. -/
def cutAfter {α : Type} [DecidableEq α] (separator : α) : List α → List (List α)
  | [] => []
  | a :: rest =>
    if a = separator then [a] :: cutAfter separator rest
    else match cutAfter separator rest with
      | [] => [[a]]
      | piece :: pieces => (a :: piece) :: pieces

/-- A line without its ending: a line feed and, if it stands before that, a
carriage return. -/
def dropEnding {α : Type} [DecidableEq α] (feed carriage : α) (line : List α) : List α :=
  match line.reverse with
  | [] => []
  | a :: rest =>
    if a = feed then
      match rest with
      | [] => []
      | b :: more => if b = carriage then more.reverse else (b :: more).reverse
    else line

/-- The lines of a text. -/
def lines (s : String) : List String :=
  (cutAfter '\n' s.toList).map fun cs => String.ofList (dropEnding '\n' '\r' cs)

/-- The first line of a text. -/
def firstLine (s : String) : String := (lines s).head?.getD ""

end Text
end RuntimeTrace
