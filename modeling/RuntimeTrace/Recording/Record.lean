import RuntimeTrace.Event.Record
import RuntimeTrace.Recording.Events
import RuntimeTrace.Text.Hexadecimal

/-!
# Records as JSON

A record is one JSON object: the fields of its context, and under `payload` an
object with one member, whose key is the family of the event.

## What is read, and what is skipped

Members that mean nothing are skipped, in the context and in events.  Almost
everywhere a skipped member is still looked at and has to be legible.  Two
families are different: a raw network event and an unclassified event are read
field by field as they stand, and what they do not declare is passed over unseen,
illegible or not.

The text of a raw event's bytes is hexadecimal.
-/

namespace RuntimeTrace

open Recording

namespace Recording

/-- The source of a raw event: its short name, which may also stand as the key of
an object with `null` in it. -/
def provider? : Json → Option NetworkProvider
  | .string name => NetworkProvider.ofLabel? name
  | .object [(name, .null)] => NetworkProvider.ofLabel? name
  | _ => none

/-- The bytes of a raw event. -/
def bytes? : Json → Option (List UInt8)
  | .string text => Hexadecimal.decode? text
  | _ => none

/-- Reads a raw network event. -/
def networkBytes? (v : Json) : Option Payload := do
  match ← (← Body.ofJson? v).slots? ["provider", "event_id", "data"] with
  | [provider, eventId, data] =>
    return .networkBytes (← provider.required provider?) (← eventId.required uint16?)
      (← data.required bytes?)
  | _ => none

/-- Reads an unclassified event. -/
def unclassified? (v : Json) : Option Payload := do
  match ← (← Body.ofJson? v).slots? ["provider", "event_id"] with
  | [provider, eventId] =>
    return .unclassified (← provider.required string?) (← eventId.required uint16?)
  | _ => none

/-- The value itself, if it is legible where it stands. -/
def legible? (depth : Nat) (v : Json) : Option Json :=
  if v.isLegible depth then some v else none

end Recording

/-- Reads a payload that stands `depth` levels above the deepest allowed. -/
def Payload.ofJson? (depth : Nat) : Json → Option Payload
  | .object [(family, v)] =>
    if family = "network_raw" then networkBytes? v
    else if family = "unknown" then unclassified? v
    else do
      let v ← legible? (depth - 1) v
      if family = "gc" then return .collection (← CollectionEvent.ofJson? v)
      else if family = "contention" then return .wait (← WaitEvent.ofJson? v)
      else if family = "network" then return .network (← NetworkEvent.ofJson? v)
      else if family = "method" then return .methodLoad (← MethodLoad.ofJson? v)
      else if family = "sample" then return .sample (← Sample.ofJson? v)
      else if family = "runtime" then return .incident (← IncidentEvent.ofJson? v)
      else none
  | _ => none

/-- Writes a payload. -/
def Payload.toJson : Payload → Json
  | .collection event => .object [("gc", event.toJson)]
  | .wait event => .object [("contention", event.toJson)]
  | .network event => .object [("network", event.toJson)]
  | .networkBytes provider eventId data =>
    .object [("network_raw", .object [("provider", .string provider.label),
      ("event_id", .nat eventId.toNat), ("data", .string (Hexadecimal.encode data))])]
  | .methodLoad load => .object [("method", load.toJson)]
  | .sample event => .object [("sample", event.toJson)]
  | .incident event => .object [("runtime", event.toJson)]
  | .unclassified provider eventId =>
    .object [("unknown", .object [("provider", .string provider),
      ("event_id", .nat eventId.toNat)])]

/-- Reads the fields of a context out of the members of a record. -/
def EventContext.ofMembers? (members : List (String × Json)) : Option EventContext := do
  match ← (Body.named members).slots? ["timestamp", "process_id", "thread_id", "activity_id",
      "related_activity_id", "keywords", "stack"] with
  | [time, processId, threadId, activityId, relatedId, keywords, stack] =>
    return {
      time := ← time.required timestamp?
      processId := ← processId.required uint32?
      threadId := ← threadId.required uint32?
      activityId := ← activityId.withDefault activityId? ActivityId.nil
      relatedActivityId := ← relatedId.withDefault activityId? ActivityId.nil
      keywords := ← keywords.withDefault uint64? 0
      stack := ← stack.optional (list? uint64?) }
  | _ => none

/-- The members of a context; a stack that was not captured is left out. -/
def EventContext.toMembers (context : EventContext) : List (String × Json) :=
  [("timestamp", .nat context.time.toNat), ("process_id", .nat context.processId.toNat),
    ("thread_id", .nat context.threadId.toNat), ("activity_id", .string context.activityId.text),
    ("related_activity_id", .string context.relatedActivityId.text),
    ("keywords", .nat context.keywords.toNat)] ++
  match context.stack with
  | some addresses => [("stack", .nats (addresses.map UInt64.toNat))]
  | none => []

/-- Reads a record. -/
def Record.ofJson? : Json → Option Record
  | .object members => do
    let rest := members.filter fun m => m.1 != "payload"
    if !Json.membersLegible (Json.maxDepth - 1) rest then none
    else
      match Json.lookupAll "payload" members with
      | [payload] =>
        return ⟨← EventContext.ofMembers? rest, ← Payload.ofJson? (Json.maxDepth - 1) payload⟩
      | _ => none
  | _ => none

/-- Writes a record. -/
def Record.toJson (record : Record) : Json :=
  .object (record.context.toMembers ++ [("payload", record.payload.toJson)])

end RuntimeTrace
