import RuntimeTrace.Event.Record
import RuntimeTrace.Misses
import RuntimeTrace.Symbols

/-!
# Waits

A thread waits for at most one thing at a time, so each thread of each process
has its own two-state machine: a start event makes it wait, a stop event ends the
wait.  A start on top of a start means that a stop was lost;
the earlier wait is given up.  A stop without a start means that the wait began
before the trace did.

Locks and wait handles share the machine.  A wait on a handle is always managed
code; a wait for a lock is if its stop event says so.

Waits shorter than a threshold are counted but not reported, and the stack of a
wait is only given names when the wait is reported.
-/

namespace RuntimeTrace

/-- What a thread waits for. -/
inductive WaitTarget where
  | monitor
  | waitHandle
  deriving DecidableEq, Repr

/-- The word for it in JSON. -/
def WaitTarget.label : WaitTarget → String
  | .monitor => "monitor"
  | .waitHandle => "wait_handle"

/-- The word for it in reports. -/
def WaitTarget.title : WaitTarget → String
  | .monitor => "Monitor"
  | .waitHandle => "WaitHandle"

/-- A wait that has ended. -/
structure ClosedWait where
  processId : ProcessId
  threadId : ThreadId
  start : Instant
  duration : Duration
  target : WaitTarget
  isManaged : Bool
  /-- Frame names, innermost first; empty when no stack was captured. -/
  callStack : List String
  deriving DecidableEq

/-- A wait that goes on. -/
structure OpenWait where
  start : Instant
  target : WaitTarget
  /-- Addresses, innermost first, where a stack was captured. -/
  stack : Option (List UInt64)
  deriving DecidableEq

/-- The waits of a trace. -/
structure WaitTracker where
  waiting : Table (ProcessId × ThreadId) OpenWait
  /-- Shorter waits are not reported. -/
  minWait : Duration
  /-- Waits that were too short. -/
  tooShort : Nat
  misses : Misses

namespace WaitTracker

/-- Nobody waits. -/
def start (minWait : Duration) : WaitTracker := ⟨Table.empty, minWait, 0, Misses.none⟩

/-- Threads that wait now. -/
def openCount (t : WaitTracker) : Nat := t.waiting.size

/-- The thread an event belongs to. -/
def threadOf (context : EventContext) : ProcessId × ThreadId :=
  (context.processId, context.threadId)

/-- A wait begins; one that still goes on is given up. -/
def begin (t : WaitTracker) (context : EventContext) (target : WaitTarget) : WaitTracker :=
  let thread := threadOf context
  { t with
    waiting := t.waiting.insert thread ⟨context.time, target, context.stack⟩
    misses := t.misses.duplicateStartIf (t.waiting.contains thread) }

/-- The names of a stack, where there is one. -/
def stackNames (symbols : Symbols) : Option (List UInt64) → List String × Symbols
  | none => ([], symbols)
  | some addresses =>
    let (frames, symbols) := symbols.frames addresses
    (frames.map Frame.shownName, symbols)

/-- A wait ends.  `managed` is what the stop event says of a lock. -/
def finish (t : WaitTracker) (symbols : Symbols) (context : EventContext) (managed : Bool) :
    Option ClosedWait × WaitTracker × Symbols :=
  let thread := threadOf context
  match t.waiting.get? thread with
  | none => (none, { t with misses := t.misses.orphanStop }, symbols)
  | some wait =>
    let t := { t with waiting := t.waiting.erase thread }
    let duration := context.time.since wait.start
    if duration.nanos < t.minWait.nanos then
      (none, { t with tooShort := t.tooShort + 1 }, symbols)
    else
      let (callStack, symbols) := stackNames symbols wait.stack
      let closed : ClosedWait := {
        processId := context.processId
        threadId := context.threadId
        start := wait.start
        duration := duration
        target := wait.target
        isManaged := wait.target == .waitHandle || managed
        callStack := callStack }
      (some closed, t, symbols)

/-- Takes in an event; gives the wait it ended, if any. -/
def step (t : WaitTracker) (symbols : Symbols) (context : EventContext) :
    WaitEvent → Option ClosedWait × WaitTracker × Symbols
  | .start _ => (none, t.begin context .monitor, symbols)
  | .handleStart _ => (none, t.begin context .waitHandle, symbols)
  | .stop flags _ => t.finish symbols context (flags == 0)
  | .handleStop => t.finish symbols context true

end WaitTracker
end RuntimeTrace
