import RuntimeTrace.Census.Allocations
import RuntimeTrace.Census.Incidents
import RuntimeTrace.Event.FamilySet
import RuntimeTrace.Interval
import RuntimeTrace.Request.Tracker
import RuntimeTrace.Wire.NetworkLayout

/-!
# One process

The state of a process is everything that is known about it: the trackers of
collections, requests and waits, the names of methods, and the counts.  It takes
in one record at a time, in the order of the trace, and gives the interval that
the record ended, if any.

The parts do not know of each other.  The only thing two of them share is the
names of methods, and that because names once given are kept.

A record of a family that is left out is counted and goes no further.
-/

namespace RuntimeTrace

/-- How a trace is read. -/
structure Policy where
  closeRule : CloseRule
  /-- The families that are read. -/
  families : FamilySet
  /-- Shorter waits are not reported. -/
  minWait : Duration

/-- Everything is read and reported. -/
def Policy.default : Policy := ⟨.heapStats, FamilySet.all, Duration.zero⟩

/-- What is known about a process. -/
structure ProcessState where
  processId : ProcessId
  policy : Policy
  symbols : Symbols
  waits : WaitTracker
  collections : CollectionTracker
  requests : RequestTracker
  processorStacks : CallTree
  allocations : Allocations
  incidents : Incidents
  /-- Records of families that are not read. -/
  leftOut : Nat
  processorSamples : Nat

namespace ProcessState

/-- Nothing is known yet. -/
def start (processId : ProcessId) (policy : Policy) : ProcessState where
  processId := processId
  policy := policy
  symbols := Symbols.empty
  waits := WaitTracker.start policy.minWait
  collections := CollectionTracker.start policy.closeRule
  requests := RequestTracker.start
  processorStacks := CallTree.empty
  allocations := Allocations.empty
  incidents := Incidents.empty
  leftOut := 0
  processorSamples := 0

/-- Puts a resolver for native code in place. -/
def setNative (s : ProcessState) (native : NativeNames) : ProcessState :=
  { s with symbols := s.symbols.setNative native }

/-- An event of a collection. -/
def onCollection (s : ProcessState) (context : EventContext) (event : CollectionEvent) :
    Option Interval × ProcessState :=
  let (closed, collections) := s.collections.step context event
  (closed.map .collection, { s with collections := collections })

/-- An event of a wait. -/
def onWait (s : ProcessState) (context : EventContext) (event : WaitEvent) :
    Option Interval × ProcessState :=
  let (closed, waits, symbols) := s.waits.step s.symbols context event
  (closed.map .wait, { s with waits := waits, symbols := symbols })

/-- An event of a request. -/
def onNetwork (s : ProcessState) (context : EventContext) (event : NetworkEvent) :
    Option Interval × ProcessState :=
  let (closed, requests) := s.requests.step context event
  (closed.map .request, { s with requests := requests })

/-- An event of a request in its binary form. -/
def onNetworkBytes (s : ProcessState) (context : EventContext) (provider : NetworkProvider)
    (eventId : UInt16) (data : List UInt8) : Option Interval × ProcessState :=
  match NetworkEvent.ofWire? provider eventId data with
  | some event => s.onNetwork context event
  | none => (none, { s with requests := s.requests.missUndecodable })

/-- A method was loaded. -/
def onMethodLoad (s : ProcessState) (load : MethodLoad) : ProcessState :=
  { s with symbols := s.symbols.addMethod (.ofLoad load) }

/-- A processor sample, which may lack a stack. -/
def onProcessorSample (s : ProcessState) (stack : Option (List UInt64)) : ProcessState :=
  let s := { s with processorSamples := s.processorSamples + 1 }
  match stack with
  | none => s
  | some addresses =>
    let (processorStacks, symbols) := s.processorStacks.insertAddresses s.symbols addresses
    { s with processorStacks := processorStacks, symbols := symbols }

/-- An allocation sample, which may lack a stack. -/
def onAllocation (s : ProcessState) (stack : Option (List UInt64)) (typeName : String)
    (amount : UInt64) (isLarge : Bool) : ProcessState :=
  match stack with
  | none => { s with allocations := s.allocations.record typeName amount isLarge none }
  | some addresses =>
    let (frames, symbols) := s.symbols.frames addresses
    { s with
      allocations := s.allocations.record typeName amount isLarge (some frames.reverse)
      symbols := symbols }

/-- A sample. -/
def onSample (s : ProcessState) (context : EventContext) : Sample → ProcessState
  | .processor => s.onProcessorSample context.stack
  | .allocation typeName amount isLarge =>
    s.onAllocation context.stack typeName amount isLarge

/-- An event that is counted. -/
def onIncident (s : ProcessState) (context : EventContext) (event : IncidentEvent) : ProcessState :=
  { s with incidents := match event with
    | .exception exceptionType message => s.incidents.addException exceptionType message
    | .typeNamed typeId typeName => s.incidents.nameType typeId typeName
    | .finalized typeId => s.incidents.addFinalized typeId
    | .starvation workers => s.incidents.addStarvation context.time workers }

/-- Takes in a record that is to be read. -/
def absorb (s : ProcessState) (record : Record) : Option Interval × ProcessState :=
  match record.payload with
  | .collection event => s.onCollection record.context event
  | .wait event => s.onWait record.context event
  | .network event => s.onNetwork record.context event
  | .networkBytes provider eventId data => s.onNetworkBytes record.context provider eventId data
  | .methodLoad load => (none, s.onMethodLoad load)
  | .sample sample => (none, s.onSample record.context sample)
  | .incident event => (none, s.onIncident record.context event)
  | .unclassified _ _ => (none, s)

/-- Whether a payload is read; one that belongs to no family always is. -/
def reads (s : ProcessState) (payload : Payload) : Bool :=
  match payload.family? with
  | some family => s.policy.families.contains family
  | none => true

/-- Takes in a record; gives the interval it ended, if any. -/
def step (s : ProcessState) (record : Record) : Option Interval × ProcessState :=
  if s.reads record.payload then s.absorb record
  else (none, { s with leftOut := s.leftOut + 1 })

/-- Whether a collection is open or held back. -/
def collectionInProgress (s : ProcessState) : Bool :=
  s.collections.hasBackground || s.collections.hasEphemeral ||
    s.collections.hasHeld

/-- What fitted nothing, in all trackers. -/
def misses (s : ProcessState) : Misses :=
  Misses.sum [s.waits.misses, s.collections.misses, s.requests.misses]

end ProcessState
end RuntimeTrace
