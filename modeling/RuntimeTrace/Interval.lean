import RuntimeTrace.Collection
import RuntimeTrace.Request.State
import RuntimeTrace.Wait

/-!
# Intervals

What a trace is read for: the collections, requests and waits that have ended.
Each belongs to a process, has a start and takes a while.
-/

namespace RuntimeTrace

/-- Something that began and ended in a trace. -/
inductive Interval where
  | collection (closed : ClosedCollection)
  | request (closed : ClosedRequest)
  | wait (closed : ClosedWait)
  deriving DecidableEq

namespace Interval

/-- The process the interval belongs to. -/
def processId : Interval → ProcessId
  | .collection closed => closed.processId
  | .request closed => closed.processId
  | .wait closed => closed.processId

/-- When the interval began. -/
def start : Interval → Instant
  | .collection closed => closed.start
  | .request closed => closed.start
  | .wait closed => closed.start

/-- How long the interval took. -/
def duration : Interval → Duration
  | .collection closed => closed.duration
  | .request closed => closed.duration
  | .wait closed => closed.duration

end Interval
end RuntimeTrace
