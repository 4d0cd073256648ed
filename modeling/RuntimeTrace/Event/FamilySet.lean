import RuntimeTrace.Event.Record
import RuntimeTrace.Text.Blank
import RuntimeTrace.Text.Column

/-!
# Families of events

Events come in families that can be left out one by one.  Which are kept is a set
of families, and a list of names denotes the union of what its items denote: the
order of items, their repetition, their case and blanks around them do not
matter, and an item `all` adds everything wherever it stands.

Method loads, names of types and unclassified events belong to no family: they
are never left out, because later events depend on them.
-/

namespace RuntimeTrace

/-- A family of events. -/
inductive EventFamily where
  | exception
  | finalizer
  | contention
  | threadStarvation
  | gc
  | allocationTick
  | network
  | cpuSampling
  deriving DecidableEq, Repr

namespace EventFamily

/-- Every family. -/
def all : List EventFamily :=
  [.exception, .finalizer, .contention, .threadStarvation, .gc, .allocationTick, .network,
    .cpuSampling]

/-- The name of a family. -/
def name : EventFamily → String
  | .exception => "EXCEPTION"
  | .finalizer => "FINALIZER"
  | .contention => "CONTENTION"
  | .threadStarvation => "THREAD_STARVATION"
  | .gc => "GC"
  | .allocationTick => "ALLOCATION_TICK"
  | .network => "NETWORK"
  | .cpuSampling => "CPU_SAMPLING"

/-- The number a family adds to the number of a set. -/
def bit : EventFamily → Nat
  | .exception => 1
  | .finalizer => 4
  | .contention => 8
  | .threadStarvation => 16
  | .gc => 32
  | .allocationTick => 64
  | .network => 128
  | .cpuSampling => 256

end EventFamily

/-- The family an event belongs to. -/
def Payload.family? : Payload → Option EventFamily
  | .collection _ => some .gc
  | .wait _ => some .contention
  | .network _ => some .network
  | .networkBytes _ _ _ => some .network
  | .methodLoad _ => none
  | .sample .processor => some .cpuSampling
  | .sample (.allocation _ _ _) => some .allocationTick
  | .incident (.exception _ _) => some .exception
  | .incident (.typeNamed _ _) => none
  | .incident (.finalized _) => some .finalizer
  | .incident (.starvation _) => some .threadStarvation
  | .unclassified _ _ => none

/-- A set of families. -/
structure FamilySet where
  contains : EventFamily → Bool

/-- An item of a list that names no family. -/
structure FamilyListError where
  item : String
  deriving DecidableEq

/-- The wording of the error. -/
def FamilyListError.message (e : FamilyListError) : String :=
  "unknown event family '" ++ e.item ++
    "' (expected all, exception, finalizer, contention, thread-starvation, gc, allocation-tick, " ++
    "network, cpu-sampling)"

namespace FamilySet

/-- Two sets with the same families are the same set. -/
@[ext] theorem ext {a b : FamilySet} (h : ∀ family, a.contains family = b.contains family) :
    a = b := by
  cases a
  cases b
  simp only [mk.injEq]
  exact funext h

/-- No family. -/
def empty : FamilySet := ⟨fun _ => false⟩

/-- Every family. -/
def all : FamilySet := ⟨fun _ => true⟩

/-- One family. -/
def only (family : EventFamily) : FamilySet := ⟨fun f => f == family⟩

/-- The families of both sets. -/
def union (a b : FamilySet) : FamilySet := ⟨fun f => a.contains f || b.contains f⟩

/-- The number of a set, one bit a family. -/
def bits (a : FamilySet) : Nat :=
  (EventFamily.all.filter a.contains).foldl (fun n family => n + family.bit) 0

/-- An item with letters in one case and dashes as underscores. -/
def normalized (item : List Char) : List Char :=
  item.map fun c => if c = '-' then '_' else c.toUpper

/-- What an item denotes. -/
def ofItem? (item : List Char) : Option FamilySet :=
  if normalized item = "ALL".toList then some all
  else (EventFamily.all.find? fun family => family.name.toList == normalized item).map only

/-- The union of what items denote, or the first item that denotes nothing. -/
def ofItems : List (List Char) → Except FamilyListError FamilySet
  | [] => .ok empty
  | item :: rest =>
    match ofItem? item with
    | none => .error ⟨String.ofList item⟩
    | some families =>
      match ofItems rest with
      | .error e => .error e
      | .ok others => .ok (families.union others)

/-- The items of a list between commas, trimmed, without the blank ones. -/
def items (text : List Char) : List (List Char) :=
  ((Text.splitChars ',' text).map Text.trimChars).filter fun item => !item.isEmpty

/-- Reads a list of families. -/
def parse (text : String) : Except FamilyListError FamilySet := ofItems (items text.toList)

end FamilySet
end RuntimeTrace
