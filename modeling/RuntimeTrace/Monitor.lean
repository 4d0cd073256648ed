import RuntimeTrace.ProcessState
import RuntimeTrace.TraceEvents

/-!
# All processes of a trace

A monitor hands each record to the state of its process, which it starts when it
first meets the process, and counts what is completed.  With a target, the
records of every other process are counted and dropped.

## Outlets

Completed intervals may go two ways.  Their trace events may be *kept*, to be
exported in the end.  The *outlet* is a queue of limited capacity to a reader who
may be slow or leave: an interval that finds the queue full is dropped and counted,
and once the reader has left the outlet is closed for good.
-/

namespace RuntimeTrace

/-- What a monitor has counted. -/
structure MonitorStats where
  records : Nat
  collections : Nat
  requests : Nat
  waits : Nat
  /-- Records of other processes than the target. -/
  skipped : Nat
  deriving DecidableEq, Repr

/-- Nothing counted. -/
def MonitorStats.zero : MonitorStats := ⟨0, 0, 0, 0, 0⟩

/-- Counts an interval under its kind. -/
def MonitorStats.countInterval (s : MonitorStats) : Interval → MonitorStats
  | .collection _ => { s with collections := s.collections + 1 }
  | .request _ => { s with requests := s.requests + 1 }
  | .wait _ => { s with waits := s.waits + 1 }

/-- A queue to a reader. -/
structure Outlet where
  capacity : Nat
  /-- What the reader has not taken yet, oldest first. -/
  queue : List Interval
  /-- The reader has left. -/
  readerLeft : Bool

namespace Outlet

/-- An empty queue. -/
def ofCapacity (capacity : Nat) : Outlet := ⟨capacity, [], false⟩

/-- The reader leaves, and what it has not taken is lost. -/
def leave (o : Outlet) : Outlet := { o with queue := [], readerLeft := true }

end Outlet

/-- The processes of a trace. -/
structure Monitor where
  policy : Policy
  /-- The only process of interest, if there is one. -/
  target : Option ProcessId
  stats : MonitorStats
  processes : Table ProcessId ProcessState
  /-- The events of completed intervals, if they are kept. -/
  kept : Option (List TraceEvent)
  outlet : Option Outlet
  /-- Intervals that found the outlet full. -/
  dropped : Nat

namespace Monitor

/-- No record has been read. -/
def start (policy : Policy) (target : Option ProcessId) (keepsEvents : Bool)
    (outlet : Option Outlet) : Monitor where
  policy := policy
  target := target
  stats := MonitorStats.zero
  processes := Table.empty
  kept := if keepsEvents then some [] else none
  outlet := outlet
  dropped := 0

/-- Sends an interval to the outlet. -/
def send (m : Monitor) (interval : Interval) : Monitor :=
  match m.outlet with
  | none => m
  | some outlet =>
    if outlet.readerLeft then { m with outlet := none }
    else if outlet.queue.length < outlet.capacity then
      { m with outlet := some { outlet with queue := outlet.queue ++ [interval] } }
    else { m with dropped := m.dropped + 1 }

/-- Counts a completed interval and passes it on. -/
def passOn (m : Monitor) (interval : Interval) : Monitor :=
  { m with
    stats := m.stats.countInterval interval
    kept := m.kept.map (· ++ interval.traceEvents) }.send interval

/-- Whether a process is of interest. -/
def watches (m : Monitor) (pid : ProcessId) : Bool :=
  match m.target with
  | some target => target == pid
  | none => true

/-- The state of a process, a new one if there is none yet. -/
def stateOf (m : Monitor) (pid : ProcessId) : ProcessState :=
  (m.processes.get? pid).getD (ProcessState.start pid m.policy)

/-- Takes in a record; gives the interval it completed, if any. -/
def step (m : Monitor) (record : Record) : Option Interval × Monitor :=
  let m := { m with stats := { m.stats with records := m.stats.records + 1 } }
  let pid := record.context.processId
  if m.watches pid then
    let (interval?, state) := (m.stateOf pid).step record
    let m := { m with processes := m.processes.insert pid state }
    match interval? with
    | some interval => (some interval, m.passOn interval)
    | none => (none, m)
  else
    (none, { m with stats := { m.stats with skipped := m.stats.skipped + 1 } })

/-- The states of processes, by number. -/
def byProcess (m : Monitor) : List ProcessState :=
  (m.processes.entries.mergeSort fun a b => a.1 ≤ b.1).map Prod.snd

/-- What fitted nothing, in all processes. -/
def misses (m : Monitor) : Misses := Misses.sum (m.processes.values.map ProcessState.misses)

/-- Hands over the kept events, which are then no longer kept. -/
def takeEvents (m : Monitor) : Option (List TraceEvent) × Monitor :=
  (m.kept, { m with kept := none })

/-- The reader of the outlet takes everything that waits. -/
def drain (m : Monitor) : List Interval × Monitor :=
  match m.outlet with
  | none => ([], m)
  | some outlet => (outlet.queue, { m with outlet := some { outlet with queue := [] } })

/-- The reader of the outlet leaves. -/
def readerLeaves (m : Monitor) : Monitor := { m with outlet := m.outlet.map Outlet.leave }

end Monitor
end RuntimeTrace
