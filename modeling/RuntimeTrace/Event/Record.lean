import RuntimeTrace.Activity.Id
import RuntimeTrace.Event.Network
import RuntimeTrace.Event.Runtime
import RuntimeTrace.Time

/-!
# Trace records

A trace is a sequence of records, one for each event.  A record is a context, which
says when and where the event happened, and a payload, which says what it was.  A
network event may still be in its binary form; then its payload is the event's
source, number and bytes.
-/

namespace RuntimeTrace

/-- A process of the traced machine. -/
abbrev ProcessId := UInt32

/-- An operating system thread. -/
abbrev ThreadId := UInt32

/-- How reports name a process. -/
def processText (pid : ProcessId) : String := "PID:" ++ toString pid.toNat

/-- How reports name a thread. -/
def threadText (tid : ThreadId) : String := "TID:" ++ toString tid.toNat

/-- What every event carries. -/
structure EventContext where
  time : Instant
  processId : ProcessId
  threadId : ThreadId
  activityId : ActivityId
  relatedActivityId : ActivityId
  keywords : UInt64
  /-- Instruction addresses, innermost frame first. -/
  stack : Option (List UInt64)
  deriving DecidableEq

/-- What an event was. -/
inductive Payload where
  | collection (event : CollectionEvent)
  | wait (event : WaitEvent)
  | network (event : NetworkEvent)
  /-- A network event in its binary form. -/
  | networkBytes (provider : NetworkProvider) (eventId : UInt16) (data : List UInt8)
  | methodLoad (load : MethodLoad)
  | sample (sample : Sample)
  | incident (event : IncidentEvent)
  /-- An event that its source could not classify. -/
  | unclassified (provider : String) (eventId : UInt16)
  deriving DecidableEq

/-- One event of a trace. -/
structure Record where
  context : EventContext
  payload : Payload
  deriving DecidableEq

end RuntimeTrace
