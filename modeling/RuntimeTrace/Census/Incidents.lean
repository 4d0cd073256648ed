import RuntimeTrace.Census.Ranking
import RuntimeTrace.Table
import RuntimeTrace.Text.Column
import RuntimeTrace.Text.Hexadecimal
import RuntimeTrace.Time

/-!
# Exceptions, finalized objects, starvation

Some events have neither beginning nor end and are only counted.

A finalized object is known by the number of its type.  The name of that type is
what the runtime last said it was called *before* the object was finalized; a type
that had no name by then is counted under its number, in hexadecimal, and stays
there.
-/

namespace RuntimeTrace

/-- The exceptions of one type. -/
structure ExceptionTally where
  count : Nat
  /-- The message of the last one. -/
  lastMessage : String
  deriving DecidableEq

/-- The thread pool added workers because its work did not progress. -/
structure PoolStarvation where
  time : Instant
  workers : UInt32
  deriving DecidableEq

/-- What was counted in a process. -/
structure Incidents where
  exceptionTypes : Table String ExceptionTally
  /-- Names of types by their number. -/
  typeNames : Table UInt64 String
  finalizedTypes : Table String Nat
  /-- In the order of the trace. -/
  starvations : List PoolStarvation

namespace Incidents

/-- Nothing has been counted. -/
def empty : Incidents := ⟨Table.empty, Table.empty, Table.empty, []⟩

/-- An exception was thrown. -/
def addException (i : Incidents) (typeName message : String) : Incidents :=
  { i with
    exceptionTypes := i.exceptionTypes.update typeName ⟨0, ""⟩ fun e => ⟨e.count + 1, message⟩ }

/-- A type number was given a name. -/
def nameType (i : Incidents) (typeId : UInt64) (typeName : String) : Incidents :=
  { i with typeNames := i.typeNames.insert typeId typeName }

/-- What a type number is called now. -/
def typeName (i : Incidents) (typeId : UInt64) : String :=
  (i.typeNames.get? typeId).getD (Hexadecimal.address typeId)

/-- An object was finalized. -/
def addFinalized (i : Incidents) (typeId : UInt64) : Incidents :=
  { i with finalizedTypes := i.finalizedTypes.update (i.typeName typeId) 0 (· + 1) }

/-- The thread pool starved. -/
def addStarvation (i : Incidents) (time : Instant) (workers : UInt32) : Incidents :=
  { i with starvations := i.starvations ++ [⟨time, workers⟩] }

/-- Exception types by falling count, then by name. -/
def exceptions (i : Incidents) : List (String × ExceptionTally) :=
  ranking ExceptionTally.count i.exceptionTypes.entries

/-- Finalized types by falling count, then by name. -/
def finalized (i : Incidents) : List (String × Nat) := ranking id i.finalizedTypes.entries

/-- Nothing has been counted; names of types do not count. -/
def isEmpty (i : Incidents) : Bool :=
  i.exceptionTypes.entries.isEmpty && i.finalizedTypes.entries.isEmpty && i.starvations.isEmpty

/-! ## The report -/

/-- A count in its column, with a name. -/
def countLine (count : Nat) (name : String) : String :=
  "\n  " ++ Text.rightAlign 6 (toString count) ++ "  " ++ name

/-- The exceptions of the most frequent types. -/
def exceptionText (i : Incidents) (top : Nat) : String :=
  match i.exceptions with
  | [] => ""
  | entries =>
    let total := entries.foldl (fun n e => n + e.2.count) 0
    s!"\nExceptions: {total}" ++
      String.join ((entries.take top).map fun (name, e) =>
        countLine e.count name ++ if e.lastMessage = "" then "" else ": " ++ e.lastMessage)

/-- The finalized objects of the most frequent types. -/
def finalizedText (i : Incidents) (top : Nat) : String :=
  match i.finalized with
  | [] => ""
  | entries =>
    let total := entries.foldl (fun n e => n + e.2) 0
    s!"\nFinalized objects: {total}" ++
      String.join ((entries.take top).map fun (name, count) => countLine count name)

/-- How often the thread pool starved, and the last time it did. -/
def starvationText (i : Incidents) : String :=
  match i.starvations.getLast? with
  | none => ""
  | some last =>
    let times := i.starvations.length
    let workers := last.workers.toNat
    s!"\nThread pool starvation: {times} times, {workers} workers at " ++ last.time.text

/-- Everything that was counted, with at most `top` types of each kind; empty if
there is nothing to report. -/
def text (i : Incidents) (top : Nat) : String :=
  i.exceptionText top ++ i.finalizedText top ++ i.starvationText

end Incidents
end RuntimeTrace
