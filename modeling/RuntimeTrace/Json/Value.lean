import RuntimeTrace.Binary64

/-!
# JSON values

Trace records and exported trace events are JSON.  A number is an integer when it is
written as one and fits sixty-four bits, signed or unsigned; every other number
is a double.  Members of an object keep their order, and a key may repeat: what a
repeated key means is for the reader of a record to say.

## Illegible values

Some texts are well-formed JSON and yet denote nothing: a number beyond the range
of doubles, or a string with half a surrogate pair in it.  Such a value is
*illegible*.  It is not an error in itself, because a part of a record that is
skipped unread may hold one; `isLegible` says that a value holds none, and that
it does not nest too deeply to be read.
-/

namespace RuntimeTrace

/-- A JSON value. -/
inductive Json where
  | null
  | bool (b : Bool)
  /-- An integer that fits sixty-four bits, signed or unsigned. -/
  | int (n : Int)
  | float (x : Binary64)
  | string (s : String)
  | array (items : List Json)
  | object (members : List (String × Json))
  /-- A well-formed text without a value. -/
  | illegible

instance : Inhabited Json := ⟨.null⟩

namespace Json

mutual

/-- No illegible part, and arrays and objects at most `depth` deep. -/
def isLegible : Nat → Json → Bool
  | 0, .array _ => false
  | depth + 1, .array items => allLegible depth items
  | 0, .object _ => false
  | depth + 1, .object members => membersLegible depth members
  | _, .illegible => false
  | _, _ => true

/-- Every item is legible. -/
def allLegible : Nat → List Json → Bool
  | _, [] => true
  | depth, v :: rest => isLegible depth v && allLegible depth rest

/-- Every member is legible. -/
def membersLegible : Nat → List (String × Json) → Bool
  | _, [] => true
  | depth, (_, v) :: rest => isLegible depth v && membersLegible depth rest

end

/-- How deep a value may nest. -/
def maxDepth : Nat := 127

/-- A natural number as a JSON integer. -/
def nat (n : Nat) : Json := .int n

/-- A list of naturals. -/
def nats (ns : List Nat) : Json := .array (ns.map nat)

/-- A value or `null`. -/
def orNull {α : Type} (f : α → Json) : Option α → Json
  | some a => f a
  | none => .null

/-- A double; one that is not finite has no number and becomes `null`. -/
def number (x : Binary64) : Json := if x.isFinite then .float x else .null

/-- Every value under a key, in order. -/
def lookupAll (key : String) (members : List (String × Json)) : List Json :=
  (members.filter fun m => m.1 == key).map Prod.snd

/-- The value of the first member with a key. -/
def get? (key : String) : Json → Option Json
  | .object members => members.lookup key
  | _ => none

end Json
end RuntimeTrace
