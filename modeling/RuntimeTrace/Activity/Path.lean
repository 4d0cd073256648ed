/-!
# Activity paths

Nested operations form a tree: an HTTP request, the name lookup it triggers, the
socket connection after that.  A path names a node of the tree by the numbers of
its ancestors, outermost first, and so the path of a child is the path of its
parent and one number more.

A number that did not fit the producer's normal scheme is an *overflow* segment,
which is written with `$` in place of `/`.  The markers matter: `1/2` and `1$2`
are different activities.
-/

namespace RuntimeTrace

/-- One number of a path. -/
structure Segment where
  value : UInt32
  /-- Written with `$` in place of `/`. -/
  overflow : Bool
  deriving DecidableEq, Repr

/-- An ordinary segment. -/
def Segment.plain (value : UInt32) : Segment := ⟨value, false⟩

/-- A path from the outermost activity to this one. -/
structure ActivityPath where
  /-- The process the path was made in, when the identifier tells. -/
  processId : Option UInt32
  segments : List Segment
  deriving DecidableEq, Repr

namespace ActivityPath

/-- A path of ordinary segments, of no particular process. -/
def ofValues (values : List UInt32) : ActivityPath :=
  ⟨none, values.map Segment.plain⟩

/-- The numbers of a path without their markers. -/
def values (path : ActivityPath) : List UInt32 := path.segments.map Segment.value

/-- The enclosing activity; the empty path has none. -/
def parent? (path : ActivityPath) : Option ActivityPath :=
  if path.segments.isEmpty then none
  else some { path with segments := path.segments.dropLast }

/-- The text of the segments after the first. -/
def renderRest : List Segment → String
  | [] => ""
  | s :: rest =>
    (if s.overflow then "$" else "/") ++ toString s.value.toNat ++ renderRest rest

/-- The segments as `1/2$3`. -/
def renderSegments : List Segment → String
  | [] => ""
  | s :: rest => (if s.overflow then "$" else "") ++ toString s.value.toNat ++ renderRest rest

/-- The path without its process. -/
def key (path : ActivityPath) : String := renderSegments path.segments

/-- The path in full, `#17/1/2` when it belongs to process seventeen. -/
def text (path : ActivityPath) : String :=
  match path.processId with
  | some pid => "#" ++ toString pid.toNat ++ "/" ++ path.key
  | none => path.key

end ActivityPath
end RuntimeTrace
