import RuntimeTrace.Activity.Id
import RuntimeTrace.Json.Value
import RuntimeTrace.Time

/-!
# Fields of a record

The fields of a record or of an event have names, and the object they are written
in may hold them in any order, beside members that mean nothing.  An event may
also be written as an array, which holds the fields in their declared order and
may stop early.

Both forms are brought to one: a list of *slots*, one for each declared field.
What is left to a field is to say which slots it puts up with.  A required field
has to be given.  A field with a default may be left out of either form.  A
nullable field may be `null` or left out of an object, but an array must give it.

A declared field that an object gives twice is an error, whatever the values; so
is an array with more items than there are fields.
-/

namespace RuntimeTrace
namespace Recording

/-- What a record says about one declared field. -/
inductive Slot where
  | given (value : Json)
  /-- The object has no such member. -/
  | omitted
  /-- The array ended before this field. -/
  | cutOff

/-- The fields of a structure as they are written. -/
inductive Body where
  | named (members : List (String × Json))
  | positional (items : List Json)

/-- The members of an object or the items of an array. -/
def Body.ofJson? : Json → Option Body
  | .object members => some (.named members)
  | .array items => some (.positional items)
  | _ => none

/-- The slot of one name in an object. -/
def namedSlot? (members : List (String × Json)) (name : String) : Option Slot :=
  match Json.lookupAll name members with
  | [] => some .omitted
  | [v] => some (.given v)
  | _ => none

/-- The slots of an array, one for each name. -/
def positionalSlots : List String → List Json → List Slot
  | [], _ => []
  | _ :: names, [] => .cutOff :: positionalSlots names []
  | _ :: names, v :: rest => .given v :: positionalSlots names rest

/-- The slots of an object, one for each name. -/
def namedSlots? (members : List (String × Json)) : List String → Option (List Slot)
  | [] => some []
  | name :: names => do
    let slot ← namedSlot? members name
    let slots ← namedSlots? members names
    return slot :: slots

/-- One slot for each declared name. -/
def Body.slots? (body : Body) (names : List String) : Option (List Slot) :=
  match body with
  | .named members => namedSlots? members names
  | .positional items =>
    if items.length ≤ names.length then some (positionalSlots names items) else none

namespace Slot

variable {α : Type}

/-- A field that has to be given. -/
def required (slot : Slot) (read : Json → Option α) : Option α :=
  match slot with
  | .given v => read v
  | _ => none

/-- A field that may be left out. -/
def withDefault (slot : Slot) (read : Json → Option α) (default : α) : Option α :=
  match slot with
  | .given v => read v
  | _ => some default

/-- A field that may be `null`, and may be left out of an object. -/
def nullable (slot : Slot) (read : Json → Option α) : Option (Option α) :=
  match slot with
  | .given .null => some none
  | .given v => (read v).map some
  | .omitted => some none
  | .cutOff => none

/-- A field that may be `null` or left out. -/
def optional (slot : Slot) (read : Json → Option α) : Option (Option α) :=
  match slot with
  | .given .null => some none
  | .given v => (read v).map some
  | _ => some none

end Slot

/-! ## Field types -/

/-- An integer from zero up to below a bound. -/
def natBelow? (bound : Nat) : Json → Option Nat
  | .int (.ofNat n) => if n < bound then some n else none
  | _ => none

/-- An integer of so many bits in two's complement. -/
def intWithin? (bound : Nat) : Json → Option Int
  | .int n => if -(bound : Int) ≤ n ∧ n < bound then some n else none
  | _ => none

/-- A word of one byte. -/
def uint8? (v : Json) : Option UInt8 := (natBelow? UInt8.size v).map UInt8.ofNat

/-- A word of two bytes. -/
def uint16? (v : Json) : Option UInt16 := (natBelow? UInt16.size v).map UInt16.ofNat

/-- A word of four bytes. -/
def uint32? (v : Json) : Option UInt32 := (natBelow? UInt32.size v).map UInt32.ofNat

/-- A word of eight bytes. -/
def uint64? (v : Json) : Option UInt64 := (natBelow? UInt64.size v).map UInt64.ofNat

/-- A signed word of four bytes. -/
def int32? (v : Json) : Option Int32 := (intWithin? (UInt32.size / 2) v).map Int32.ofInt

/-- A signed word of eight bytes. -/
def int64? (v : Json) : Option Int64 := (intWithin? (UInt64.size / 2) v).map Int64.ofInt

/-- Any number. -/
def binary64? : Json → Option Binary64
  | .int n => some (Binary64.ofInt n)
  | .float x => some x
  | _ => none

/-- A truth value. -/
def bool? : Json → Option Bool
  | .bool b => some b
  | _ => none

/-- Text. -/
def string? : Json → Option String
  | .string s => some s
  | _ => none

/-- An instant, as its nanoseconds. -/
def timestamp? (v : Json) : Option Instant := (uint64? v).map Instant.mk

/-- An activity identifier, as its text. -/
def activityId? : Json → Option ActivityId
  | .string s => (ActivityId.parse s).toOption
  | _ => none

/-- A list of values that are all of one type. -/
def list? {α : Type} (read : Json → Option α) : Json → Option (List α)
  | .array items => items.mapM read
  | _ => none

end Recording
end RuntimeTrace
