import RuntimeTrace.Interval
import RuntimeTrace.Json.Value

/-!
# Intervals as JSON

An interval is an object whose member `kind` says what it is --- a collection, a
request, or a wait for one thing or another --- with the facts of the interval
beside it.  Instants and durations are whole nanoseconds.
-/

namespace RuntimeTrace

/-- An instant. -/
def Instant.toJson (t : Instant) : Json := .nat t.toNat

/-- A duration. -/
def Duration.toJson (d : Duration) : Json := .nat d.toNat

/-- A named choice, or one that is known by its code only. -/
def Json.named (name : String) (unknown : Option UInt32) : Json :=
  match unknown with
  | some code => .object [("Unknown", .nat code.toNat)]
  | none => .string name

/-- The reason for a collection. -/
def CollectionReason.toJson (reason : CollectionReason) : Json :=
  match reason with
  | .unknown code => Json.named "" (some code)
  | _ => Json.named reason.text none

/-- How a collection ran. -/
def CollectionMode.toJson (mode : CollectionMode) : Json :=
  match mode with
  | .unknown code => Json.named "" (some code)
  | _ => Json.named mode.text none

/-- The sizes in order. -/
def GenerationSizes.toJson (sizes : GenerationSizes) : Json :=
  .nats (sizes.toList.map UInt64.toNat)

/-- The members of a collection. -/
def ClosedCollection.toMembers (c : ClosedCollection) : List (String × Json) :=
  [("process_id", .nat c.processId.toNat), ("number", .nat c.number.toNat),
    ("generation", .nat c.generation.toNat), ("reason", c.reason.toJson),
    ("gc_type", c.mode.toJson), ("is_compacting", .bool c.isCompacting),
    ("start", c.start.toJson), ("end", c.finish.toJson),
    ("heap_sizes", c.heapSizes.toJson), ("size_before", c.sizeBefore.toJson),
    ("size_after", c.sizeAfter.toJson),
    ("suspension_duration", c.suspensionDuration.toJson),
    ("pause_duration", c.pauseDuration.toJson)]

/-- A completed phase. -/
def PhaseSpan.toJson (timing : PhaseSpan) : Json :=
  .object [("start", timing.start.toJson), ("wait", timing.wait.toJson),
    ("duration", timing.duration.toJson)]

/-- The completed phases; those that have only begun are not shown. -/
def LegPhases.toJson (phases : LegPhases) : Json :=
  .object ((Phase.all.map fun phase =>
      (phase.label, Json.orNull PhaseSpan.toJson (phases.completed.get phase))) ++
    [("queueing", Json.orNull Duration.toJson phases.queueing)])

/-- The members of an outcome. -/
def Outcome.toMembers : Outcome → List (String × Json)
  | .completed statusCode =>
    [("outcome", .string "completed"), ("status_code", .int statusCode.toInt)]
  | .failed message => [("outcome", .string "failed"), ("message", .string message)]

/-- The second leg of a request. -/
def RedirectLeg.toJson (leg : RedirectLeg) : Json :=
  .object [("start", leg.start.toJson), ("url", .string leg.url), ("phases", leg.phases.toJson),
    ("outcome", Json.orNull (fun outcome => .object outcome.toMembers) leg.outcome),
    ("end", Json.orNull Instant.toJson leg.finish)]

/-- The members of a request; its outcome stands among them. -/
def ClosedRequest.toMembers (r : ClosedRequest) : List (String × Json) :=
  [("process_id", .nat r.processId.toNat), ("activity", .string r.activity),
    ("url", .string r.url), ("start", r.start.toJson),
    ("duration", r.duration.toJson)] ++ r.outcome.toMembers ++
  [("http_version", Json.orNull Json.string r.protocolVersion),
    ("connection_id", Json.orNull (fun n => .int n.toInt) r.connectionId),
    ("phases", r.phases.toJson),
    ("tls_protocol", Json.orNull Json.string r.tlsProtocol),
    ("handshake_error", Json.orNull Json.string r.handshakeError),
    ("response_status", Json.orNull (fun n => .int n.toInt) r.responseStatus),
    ("redirect", Json.orNull RedirectLeg.toJson r.redirect)]

/-- The members of a wait. -/
def ClosedWait.toMembers (w : ClosedWait) : List (String × Json) :=
  [("process_id", .nat w.processId.toNat), ("thread_id", .nat w.threadId.toNat),
    ("start", w.start.toJson), ("duration", w.duration.toJson),
    ("kind", .string w.target.label), ("is_managed", .bool w.isManaged),
    ("call_stack", .array (w.callStack.map Json.string))]

/-- An interval.  A wait brings its own `kind`. -/
def Interval.toJson : Interval → Json
  | .collection c => .object (("kind", .string "gc") :: c.toMembers)
  | .request r => .object (("kind", .string "request") :: r.toMembers)
  | .wait w => .object w.toMembers

end RuntimeTrace
