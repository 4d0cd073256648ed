import RuntimeTrace.CallTree.Outline
import RuntimeTrace.Interval.Text
import RuntimeTrace.Monitor

/-!
# Summaries

What is told when a trace has ended: for every process what is still open, where
the processor time went and what was allocated, and over all processes what was
counted and what did not fit.
-/

namespace RuntimeTrace
namespace Summary

/-- Bytes as binary megabytes with one place. -/
def megabytes (bytes : UInt64) : String :=
  ((Binary64.ofNat bytes.toNat).divNat 1048576).fixed 1

/-- One type of a summary of allocations. -/
def allocationLine (entry : String × TypeTally) : String :=
  let (typeName, t) := entry
  "  " ++ Text.rightAlign 12 (toString t.size.toNat) ++ " bytes " ++
    Text.rightAlign 6 (toString t.count) ++ " samples  " ++ typeName ++ "\n"

/-- The allocations of a process, at most `top` types. -/
def allocations (a : Allocations) (top : Nat) : String :=
  if a.isEmpty then ""
  else
    "\nAllocations: " ++ toString a.totalCount ++ " samples, " ++ megabytes a.totalSize ++
      " MB\n" ++ String.join ((a.largestFirst.take top).map allocationLine)

/-- The incidents of a process, at most `top` types of each kind. -/
def incidents (i : Incidents) (top : Nat) : String :=
  let text := i.text top
  if text = "" then "" else text ++ "\n"

/-- A process. -/
def process (s : ProcessState) (top : Nat) : String :=
  let methods := s.symbols.methods.length
  let requests := s.requests.openCount
  let waits := s.waits.openCount
  let samples := s.processorSamples
  let leftOut := s.leftOut
  "\n" ++ processText s.processId ++
    s!": {methods} methods, {requests} open requests, {waits} pending waits, " ++
    s!"{samples} cpu samples\n" ++
    (if s.collectionInProgress then "  GC still in progress at end of trace\n" else "") ++
    (if leftOut = 0 then "" else s!"  {leftOut} records skipped by --events\n") ++
    (if s.processorStacks.stackCount = 0 then ""
      else "\nCPU stacks:" ++ s.processorStacks.outlineText ++ "\n") ++
    allocations s.allocations top ++ incidents s.incidents top

/-- What was counted, and what did not fit. -/
def counts (stats : MonitorStats) (misses : Misses) : List String :=
  let records := stats.records
  let collections := stats.collections
  let requests := stats.requests
  let waits := stats.waits
  let skipped := stats.skipped
  let stops := misses.orphanStops
  let details := misses.orphanDetails
  let starts := misses.duplicateStarts
  let payloads := misses.undecodablePayloads
  [s!"stats: records={records} gc_cycles={collections} requests={requests} " ++
      s!"contention_spans={waits} skipped={skipped}",
    s!"misses: orphan_stops={stops} orphan_details={details} duplicate_starts={starts} " ++
      s!"undecodable={payloads}"]

end Summary
end RuntimeTrace
