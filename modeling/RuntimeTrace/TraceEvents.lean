import RuntimeTrace.Interval.Json
import RuntimeTrace.Interval.Text

/-!
# Trace events for a viewer

Intervals are exported as *trace events*, the JSON format of browser trace
viewers.  An event has a name, a category, a start and a length in microseconds,
and stands in a lane of its process.  Collections share a lane and requests
another one; each wait stands in the lane of its thread.

A request is an event of its own, followed by one for each of its phases, those
of the redirected leg last.

## The origin

Starts are relative to the earliest one.  Intervals are exported in the order in
which they ended, and a phase may even begin before everything else, so the
origin is only known once all events are there.

After the events come the names of the two shared lanes, for each process that has
something in them.
-/

namespace RuntimeTrace

/-- Where an event stands within its process. -/
inductive Lane where
  | collections
  | requests
  | thread (threadId : ThreadId)
  deriving DecidableEq

namespace Lane

/-- The number of a lane. -/
def number : Lane → Nat
  | .collections => 0
  | .requests => 1
  | .thread threadId => threadId.toNat

/-- What the events of a lane are. -/
def category : Lane → String
  | .collections => "gc"
  | .requests => "http"
  | .thread _ => "contention"

/-- The name of a lane; a thread goes by its number. -/
def title? : Lane → Option String
  | .collections => some "GC"
  | .requests => some "HTTP"
  | .thread _ => none

/-- The lanes that have a name, in order. -/
def titled : List Lane := [.collections, .requests]

end Lane

/-- An event before its start is made relative. -/
structure TraceEvent where
  name : String
  lane : Lane
  start : Instant
  duration : Duration
  processId : ProcessId
  args : List (String × Json)

/-- The event of a collection.  Sizes before and after are left out when the
producer does not report them. -/
def ClosedCollection.traceEvent (c : ClosedCollection) : TraceEvent where
  name := "GC #" ++ toString c.number.toNat ++ " gen" ++ toString c.generation.toNat
  lane := .collections
  start := c.start
  duration := c.duration
  processId := c.processId
  args :=
    [("reason", .string c.reason.text), ("type", .string c.mode.text),
      ("compacting", .bool c.isCompacting),
      ("pause_ms", Json.number c.pauseDuration.millis),
      ("heap_sizes", c.heapSizes.toJson)] ++
    if c.sizeBefore = GenerationSizes.zero then []
    else [("size_before", c.sizeBefore.toJson), ("size_after", c.sizeAfter.toJson)]

/-- The events of the completed phases of a leg. -/
def LegPhases.traceEvents (phases : LegPhases) (processId : ProcessId) (lead : String) :
    List TraceEvent :=
  phases.completed.toList.map fun (phase, timing) => {
    name := lead ++ phase.title
    lane := .requests
    start := timing.start
    duration := timing.duration
    processId := processId
    args := [("wait_ms", Json.number timing.wait.millis)] }

namespace ClosedRequest

/-- What is told of a request. -/
def traceArgs (r : ClosedRequest) : List (String × Json) :=
  [("activity", .string r.activity),
    match r.outcome with
    | .completed statusCode => ("status", .int statusCode.toInt)
    | .failed message => ("error", .string message)] ++
  (r.redirect.map fun leg => ("redirect", Json.string leg.url)).toList ++
  (r.tlsProtocol.map fun name => ("tls", Json.string name)).toList

/-- The event of a request and those of its phases. -/
def traceEvents (r : ClosedRequest) : List TraceEvent :=
  { name := r.title
    lane := .requests
    start := r.start
    duration := r.duration
    processId := r.processId
    args := r.traceArgs } ::
  (r.phases.traceEvents r.processId "" ++
    match r.redirect with
    | some leg => leg.phases.traceEvents r.processId "redirect "
    | none => [])

end ClosedRequest

/-- The event of a wait, named for the frame that waited. -/
def ClosedWait.traceEvent (w : ClosedWait) : TraceEvent where
  name := w.callStack.head?.getD "contention"
  lane := .thread w.threadId
  start := w.start
  duration := w.duration
  processId := w.processId
  args :=
    [("managed", .bool w.isManaged), ("kind", .string w.target.label)] ++
    if w.callStack = [] then []
    else [("stack", .array (w.callStack.map Json.string))]

/-- The events of an interval. -/
def Interval.traceEvents : Interval → List TraceEvent
  | .collection c => [c.traceEvent]
  | .request r => r.traceEvents
  | .wait w => [w.traceEvent]

namespace TraceEvents

/-- The earliest start. -/
def origin : List TraceEvent → Instant
  | [] => ⟨0⟩
  | [event] => event.start
  | event :: rest => event.start.earlier (origin rest)

/-- An event with its start relative to the origin. -/
def eventJson (origin : Instant) (event : TraceEvent) : Json :=
  .object [("name", .string event.name), ("cat", .string event.lane.category),
    ("ph", .string "X"), ("ts", Json.number (event.start.since origin).micros),
    ("dur", Json.number event.duration.micros), ("pid", .nat event.processId.toNat),
    ("tid", .nat event.lane.number), ("args", .object event.args)]

/-- The entry that names a lane. -/
def laneJson (processId : ProcessId) (lane : Lane) (title : String) : Json :=
  .object [("name", .string "thread_name"), ("cat", .string ""), ("ph", .string "M"),
    ("ts", Json.number Binary64.zero), ("pid", .nat processId.toNat), ("tid", .nat lane.number),
    ("args", .object [("name", .string title)])]

/-- The processes of events, each once, by number. -/
def processes (events : List TraceEvent) : List ProcessId :=
  ((events.map TraceEvent.processId).mergeSort fun a b => a ≤ b).eraseDups

/-- The lanes with a name that hold an event, by process and lane. -/
def titledLanes (events : List TraceEvent) : List (ProcessId × Lane) :=
  (processes events).flatMap fun processId =>
    (Lane.titled.filter fun lane =>
      events.any fun event => event.processId == processId && event.lane == lane).map
        fun lane => (processId, lane)

/-- The names of lanes. -/
def laneEntries (events : List TraceEvent) : List Json :=
  (titledLanes events).filterMap fun (processId, lane) =>
    lane.title?.map (laneJson processId lane)

/-- The exported file. -/
def toJson (events : List TraceEvent) : Json :=
  .object [("traceEvents", .array (events.map (eventJson (origin events)) ++ laneEntries events)),
    ("displayTimeUnit", .string "ms")]

end TraceEvents
end RuntimeTrace
