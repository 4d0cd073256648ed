import RuntimeTrace.Interval
import RuntimeTrace.Text.Column

/-!
# Intervals as text

An interval is a headline and, indented below it, its details.  The headline
begins with the kind of the interval in brackets, so that a reader may search for
one kind.
-/

namespace RuntimeTrace

/-- A collection: what it was, how long it paused the program and took, and below
that the sizes it left. -/
def ClosedCollection.text (c : ClosedCollection) : String :=
  let number := toString c.number.toNat
  let generation := toString c.generation.toNat
  let compacting := if c.isCompacting then " compacting" else ""
  let gen0 := toString c.heapSizes.gen0.toNat
  let gen1 := toString c.heapSizes.gen1.toNat
  let gen2 := toString c.heapSizes.gen2.toNat
  let large := toString c.heapSizes.largeObjects.toNat
  "[GC] #" ++ number ++ " gen" ++ generation ++ " " ++ c.mode.text ++ " " ++
    c.reason.text ++ compacting ++ " pause=" ++ c.pauseDuration.text ++
    " duration=" ++ c.duration.text ++
    "\n  heap: gen0=" ++ gen0 ++ " gen1=" ++ gen1 ++ " gen2=" ++ gen2 ++ " loh=" ++ large

/-- The completed phases of a leg, each with its wait. -/
def LegPhases.texts (lead : String) (phases : LegPhases) : List String :=
  phases.completed.toList.map fun (phase, timing) =>
    lead ++ phase.shortTitle ++ " " ++ timing.duration.text ++ " (+" ++ timing.wait.text ++ " wait)"

namespace ClosedRequest

/-- The status code, or a mark for a request that failed. -/
def statusText (r : ClosedRequest) : String :=
  match r.outcome with
  | .completed statusCode => toString statusCode.toInt
  | .failed _ => "ERR"

/-- What the request is called: its address, or its activity if that is not
known. -/
def title (r : ClosedRequest) : String :=
  if r.url = "" then r.activity else r.url

/-- The phases of both legs. -/
def phaseTexts (r : ClosedRequest) : List String :=
  r.phases.texts "" ++
    match r.redirect with
    | some leg => leg.phases.texts "redirect "
    | none => []

/-- A request: its status, time and address, and below that its phases and what
went wrong. -/
def text (r : ClosedRequest) : String :=
  let target := match r.redirect with
    | some leg => " -> " ++ leg.url
    | none => ""
  let phases := match r.phaseTexts with
    | [] => ""
    | texts => "\n  " ++ Text.join " | " texts
  let failure := match r.outcome with
    | .failed message => "\n  ~ " ++ message
    | .completed _ => ""
  let handshake := match r.handshakeError with
    | some message => "\n  ~ tls: " ++ message
    | none => ""
  "[HTTP] " ++ Text.rightAlign 3 r.statusText ++ " " ++ r.duration.text ++ " " ++
    r.title ++ target ++ phases ++ failure ++ handshake

end ClosedRequest

/-- A wait: where it happened and how long it took, and below that the stack,
innermost frame first. -/
def ClosedWait.text (w : ClosedWait) : String :=
  let code := if w.isManaged then "managed" else "native"
  "[WAIT] " ++ processText w.processId ++ " " ++ threadText w.threadId ++ " " ++
    w.target.title ++ " " ++ code ++ " " ++ w.duration.text ++
    String.join (w.callStack.map fun frame => "\n    " ++ frame)

/-- An interval as text. -/
def Interval.text : Interval → String
  | .collection c => c.text
  | .request r => r.text
  | .wait w => w.text

end RuntimeTrace
