import RuntimeTrace.Command.FileFault
import RuntimeTrace.Table
import RuntimeTrace.Text.Column

/-!
# Trees of files

A session names files by paths, and what a path leads to is decided name by name.
A `FileTree` is a tree of directories and files with a directory to start from, and
gives for every path what opening it for reading or for writing comes to.  There are
no links in it, and nobody is denied anything.

## How a path is followed

A path that begins with a slash starts at the root, any other in the working
directory.  Every name but the last has to lead to a directory; slashes in a row
count as one.  A single dot stays where it is, and two dots go up, at the root
nowhere.

The last name may be missing in the tree if the file is to be written.  A slash
after it asks for a directory: reading a file under such a name fails, and no file
is ever written under one.  A directory can be opened but not read.
-/

namespace RuntimeTrace

/-- What stands at a place of the tree. -/
inductive FileNode where
  | directory
  | file (content : List UInt8)
  /-- What a device gives to read, and why it takes nothing, if it does not. -/
  | device (content : List UInt8) (refusal : Option FileFault)
  deriving DecidableEq

/-- Directories and files by their places; a place is the list of names that lead
to it from the root. -/
structure FileTree where
  nodes : Table (List String) FileNode
  /-- The place that paths start from. -/
  working : List String

/-- Where a path leads. -/
inductive Destination where
  /-- To a directory, by dots or to the root. -/
  | directory (place : List String)
  /-- To a name in a directory, whatever stands there. -/
  | entry (place : List String) (name : String)
  deriving DecidableEq, Repr

namespace FileTree

/-- Bytes of the longest name. -/
def maxName : Nat := 255

/-- Bytes of the longest path. -/
def maxPath : Nat := 4095

/-- What stands at a place; the root is a directory. -/
def node? (t : FileTree) (place : List String) : Option FileNode :=
  if place = [] then some .directory else t.nodes.get? place

/-- A name that means a directory wherever it stands: itself, or the one above. -/
def dots? (place : List String) (name : String) : Option (List String) :=
  if name = "." then some place
  else if name = ".." then some place.dropLast
  else none

/-- What stands under a name in a directory. -/
def child? (t : FileTree) (place : List String) (name : String) :
    Except FileFault (Option FileNode) :=
  if maxName < name.utf8ByteSize then .error .nameTooLong
  else .ok (t.node? (place ++ [name]))

/-- Goes from a directory to the one under a name. -/
def enter (t : FileTree) (place : List String) (name : String) :
    Except FileFault (List String) :=
  match dots? place name with
  | some above => .ok above
  | none =>
    match t.child? place name with
    | .error fault => .error fault
    | .ok none => .error .notFound
    | .ok (some .directory) => .ok (place ++ [name])
    | .ok (some _) => .error .notDirectory

/-- Goes through directories. -/
def walk (t : FileTree) (place : List String) : List String → Except FileFault (List String)
  | [] => .ok place
  | name :: rest =>
    match t.enter place name with
    | .ok next => t.walk next rest
    | .error fault => .error fault

/-- The names of a path. -/
def names (path : String) : List String :=
  ((Text.splitChars '/' path.toList).filter fun name => !name.isEmpty).map String.ofList

/-- A path that starts at the root. -/
def startsAtRoot (path : String) : Bool := path.toList.head? == some '/'

/-- A path whose last name has to be a directory. -/
def asksForDirectory (path : String) : Bool := path.toList.getLast? == some '/'

/-- Where a path leads, if it leads anywhere. -/
def destination (t : FileTree) (path : String) : Except FileFault Destination :=
  if path = "" then .error .notFound
  else if maxPath < path.utf8ByteSize then .error .nameTooLong
  else
    match (names path).getLast? with
    | none => .ok (.directory [])
    | some last =>
      match t.walk (if startsAtRoot path then [] else t.working) (names path).dropLast with
      | .error fault => .error fault
      | .ok place =>
        match dots? place last with
        | some above => .ok (.directory above)
        | none => .ok (.entry place last)

/-- A path opened for reading. -/
def openFile (t : FileTree) (path : String) : Except FileFault FileStream :=
  match t.destination path with
  | .error fault => .error fault
  | .ok (.directory _) => .ok (.broken .isDirectory)
  | .ok (.entry place name) =>
    match t.child? place name with
    | .error fault => .error fault
    | .ok none => .error .notFound
    | .ok (some .directory) => .ok (.broken .isDirectory)
    | .ok (some (.file content)) =>
      if asksForDirectory path then .error .notDirectory else .ok (.bytes content)
    | .ok (some (.device content _)) =>
      if asksForDirectory path then .error .notDirectory else .ok (.bytes content)

/-- The place that is written when a path is opened for writing. -/
def createFile (t : FileTree) (path : String) : Except FileFault (List String) :=
  match t.destination path with
  | .error fault => .error fault
  | .ok (.directory _) => .error .isDirectory
  | .ok (.entry place name) =>
    if asksForDirectory path then .error .isDirectory
    else
      match t.child? place name with
      | .error fault => .error fault
      | .ok (some .directory) => .error .isDirectory
      | .ok (some (.device _ (some refusal))) => .error refusal
      | .ok _ => .ok (place ++ [name])

end FileTree
end RuntimeTrace
