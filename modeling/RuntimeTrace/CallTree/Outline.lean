import RuntimeTrace.CallTree
import RuntimeTrace.Text.Column

/-!
# Outlines of call trees

An outline shows a call tree as text, busiest frames first.  Siblings are ordered
by the stacks that contain them, siblings with equally many by first arrival.

A chain of only children is a column of lines at one depth: a step to the right
means that the tree branches there, and so deep stacks stay on the page.  Between
the subtrees of siblings stands a separator.

The outline is a list of pieces, each of which knows what it is, so that whoever
shows it may set counts, names and separators apart.
-/

namespace RuntimeTrace

/-- A piece of an outline. -/
inductive OutlinePiece where
  /-- The line break and indentation before a frame. -/
  | frameBreak (text : String)
  | count (text : String)
  | method (text : String)
  /-- What stands between the subtrees of siblings. -/
  | separator (text : String)
  deriving DecidableEq, Repr

/-- The characters of a piece. -/
def OutlinePiece.text : OutlinePiece → String
  | .frameBreak s => s
  | .count s => s
  | .method s => s
  | .separator s => s

namespace CallNode

mutual

/-- The node with all siblings below it in order of falling counts. -/
def ordered : CallNode → CallNode
  | .node a s n l cs => .node a s n l ((orderedAll cs).mergeSort fun x y => y.total ≤ x.total)

/-- Every node of a row in that order below itself. -/
def orderedAll : List CallNode → List CallNode
  | [] => []
  | c :: rest => ordered c :: orderedAll rest

end

/-- A row of siblings in order of falling counts, here and below. -/
def orderedRow (siblings : List CallNode) : List CallNode :=
  (orderedAll siblings).mergeSort fun x y => y.total ≤ x.total

end CallNode

namespace Outline

/-- Columns of one step of depth, and of a count. -/
def step : Nat := 5

/-- The three pieces of one frame. -/
def heading (depth count : Nat) (name : String) : List OutlinePiece :=
  [.frameBreak ("\n" ++ Text.spaces (step * depth)),
    .count (Text.rightAlign step (toString count) ++ " "), .method name]

/-- The separator before a sibling that stands at a depth. -/
def separator (depth : Nat) : OutlinePiece :=
  .separator ("\n" ++ Text.spaces (step * depth) ++ "~~~~ ")

mutual

/-- A node and everything below it. -/
def node (depth : Nat) : CallNode → List OutlinePiece
  | .node _ s n l cs => heading depth (n + l) s ++ below depth cs

/-- What stands below a node at a depth: an only child at the same depth, several
one step deeper. -/
def below (depth : Nat) : List CallNode → List OutlinePiece
  | [] => []
  | [c] => node depth c
  | c :: d :: rest => node (depth + 1) c ++ siblings (depth + 1) (d :: rest)

/-- Siblings after the first, each behind a separator. -/
def siblings (depth : Nat) : List CallNode → List OutlinePiece
  | [] => []
  | c :: rest => separator depth :: node depth c ++ siblings depth rest

end

end Outline

namespace CallTree

/-- The outline of a tree. -/
def outline (t : CallTree) : List OutlinePiece :=
  Outline.heading 0 t.stackCount "[root]" ++ Outline.below 0 (CallNode.orderedRow t.roots)

/-- The outline as plain text. -/
def outlineText (t : CallTree) : String :=
  String.join (t.outline.map OutlinePiece.text)

end CallTree
end RuntimeTrace
