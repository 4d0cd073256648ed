import RuntimeTrace.Symbols

/-!
# Call trees

Stacks of one kind --- processor samples, allocations of one type --- are merged
into a tree: stacks that agree on their outer frames share them.  Frames agree
when they are shown under the same name, whatever their addresses, so the tree of
a recursive or inlined method does not fall apart; a node keeps the address it
was first seen at.

Every node counts the stacks that ended in it and those that went on below it.
The counts of a tree therefore do not depend on the order in which stacks arrive;
only the order of siblings does, which is that of their first arrival.
-/

namespace RuntimeTrace

/-- A frame of the tree with the stacks counted in it and the frames below. -/
inductive CallNode where
  | node (address : UInt64) (symbol : String) (asNode asLeaf : Nat) (children : List CallNode)

namespace CallNode

/-- The address the frame was first seen at. -/
def address : CallNode → UInt64
  | .node a _ _ _ _ => a

/-- The name of the frame. -/
def symbol : CallNode → String
  | .node _ s _ _ _ => s

/-- Stacks that went on below this frame. -/
def asNode : CallNode → Nat
  | .node _ _ n _ _ => n

/-- Stacks that ended in this frame. -/
def asLeaf : CallNode → Nat
  | .node _ _ _ l _ => l

/-- Stacks that contain this frame at its place. -/
def total : CallNode → Nat
  | .node _ _ n l _ => n + l

/-- The frames below, in order of first arrival. -/
def children : CallNode → List CallNode
  | .node _ _ _ _ cs => cs

/-- Changes the first node with a name, or puts a new one at the end. -/
def upsert (name : String) (change : CallNode → CallNode) (fresh : CallNode) :
    List CallNode → List CallNode
  | [] => [fresh]
  | c :: rest =>
    if c.symbol = name then change c :: rest else c :: upsert name change fresh rest

/-- Puts a stack into a row of siblings, outermost frame first. -/
def insertStack : List Frame → List CallNode → List CallNode
  | [], siblings => siblings
  | f :: rest, siblings =>
    let name := f.shownName
    match rest with
    | [] =>
      upsert name (fun | .node a s n l cs => .node a s n (l + 1) cs) (.node f.address name 0 1 [])
        siblings
    | g :: more =>
      upsert name (fun | .node a s n l cs => .node a s (n + 1) l (insertStack (g :: more) cs))
        (.node f.address name 1 0 (insertStack (g :: more) [])) siblings

/-- The node at the end of a list of names. -/
def find? : List String → List CallNode → Option CallNode
  | [], _ => none
  | name :: rest, siblings =>
    match siblings.find? fun c => c.symbol == name with
    | none => none
    | some c => if rest = [] then some c else find? rest c.children

mutual

/-- A row of siblings and all below them, in the order of a walk from the top,
each with its depth. -/
def walkAll (depth : Nat) : List CallNode → List (Nat × CallNode)
  | [] => []
  | c :: rest => walk depth c ++ walkAll depth rest

/-- A node and all below it. -/
def walk (depth : Nat) : CallNode → List (Nat × CallNode)
  | .node a s n l cs => (depth, .node a s n l cs) :: walkAll (depth + 1) cs

end

end CallNode

/-- Merged stacks. -/
structure CallTree where
  /-- Stacks put in, empty ones not counted. -/
  stackCount : Nat
  /-- Outermost frames, in order of first arrival. -/
  roots : List CallNode

namespace CallTree

/-- No stacks. -/
def empty : CallTree := ⟨0, []⟩

instance : Inhabited CallTree := ⟨empty⟩

/-- Puts a stack in, outermost frame first; an empty one changes nothing. -/
def insert (t : CallTree) (stack : List Frame) : CallTree :=
  match stack with
  | [] => t
  | f :: rest => ⟨t.stackCount + 1, CallNode.insertStack (f :: rest) t.roots⟩

/-- Names the addresses of a stack, innermost first, and puts it in. -/
def insertAddresses (t : CallTree) (symbols : Symbols) (addresses : List UInt64) :
    CallTree × Symbols :=
  let (frames, symbols) := symbols.frames addresses
  (t.insert frames.reverse, symbols)

end CallTree
end RuntimeTrace
