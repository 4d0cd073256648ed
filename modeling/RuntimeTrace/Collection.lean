import RuntimeTrace.Event.Record
import RuntimeTrace.Misses

/-!
# Collections

A process has at most two collections open: a background collection of generation
two, and one other, which may begin and end while the background one goes on.
An event that does not name its collection belongs to the other one if that is
open, and to the background one otherwise.

## When a collection ends

A background collection ends when the runtime reports the history of a generation
two collection.  For any other collection the producers disagree, and a tracker
follows one of two rules.

* Under `heapStats` it ends with the report of generation sizes.  The runtime
  restarts the suspended threads only after that, so a collection for which
  threads are suspended is held back, with its end fixed, until they restart.
  It is let go without its pause when the next collection or suspension shows
  that the restart was lost.
* Under `restartEnd` it ends when the threads restart.

## Pauses

A suspension begins before its collection does.  Its instant waits in
`suspension`, and the next collection takes it along.  A restart charges the time
since then to the collection it finds: since the suspension that the collection
brought along, or else since the one still waiting.
-/

namespace RuntimeTrace

/-- Why a collection ran. -/
inductive CollectionReason where
  | allocSmall
  | induced
  | lowMemory
  | empty
  | allocLarge
  | outOfSpaceSoh
  | outOfSpaceLoh
  | inducedNotForced
  | internal
  | inducedLowMemory
  | inducedCompacting
  | lowMemoryHost
  | pmFullGc
  | lowMemoryHostBlocking
  | unknown (code : UInt32)
  deriving DecidableEq, Repr

namespace CollectionReason

/-- The reasons with a name, by their code. -/
def named : List (CollectionReason × String) :=
  [(.allocSmall, "AllocSmall"), (.induced, "Induced"), (.lowMemory, "LowMemory"),
    (.empty, "Empty"), (.allocLarge, "AllocLarge"), (.outOfSpaceSoh, "OutOfSpaceSoh"),
    (.outOfSpaceLoh, "OutOfSpaceLoh"), (.inducedNotForced, "InducedNotForced"),
    (.internal, "Internal"), (.inducedLowMemory, "InducedLowMemory"),
    (.inducedCompacting, "InducedCompacting"), (.lowMemoryHost, "LowMemoryHost"),
    (.pmFullGc, "PmFullGc"), (.lowMemoryHostBlocking, "LowMemoryHostBlocking")]

/-- The reason with a code. -/
def ofCode (code : UInt32) : CollectionReason :=
  match named[code.toNat]? with
  | some (reason, _) => reason
  | none => .unknown code

/-- The name of a reason, or its code in brackets. -/
def text (reason : CollectionReason) : String :=
  match reason with
  | .unknown code => s!"Unknown({code.toNat})"
  | _ => (named.lookup reason).getD ""

end CollectionReason

/-- How a collection runs beside the program. -/
inductive CollectionMode where
  | nonConcurrent
  | background
  /-- Runs while a background collection goes on. -/
  | foreground
  | unknown (code : UInt32)
  deriving DecidableEq, Repr

namespace CollectionMode

/-- The mode with a code. -/
def ofCode (code : UInt32) : CollectionMode :=
  if code = 0 then .nonConcurrent
  else if code = 1 then .background
  else if code = 2 then .foreground
  else .unknown code

/-- The name of a mode, or its code in brackets. -/
def text : CollectionMode → String
  | .nonConcurrent => "NonConcurrent"
  | .background => "Background"
  | .foreground => "Foreground"
  | .unknown code => s!"Unknown({code.toNat})"

end CollectionMode

/-- The event that ends a collection other than a background one. -/
inductive CloseRule where
  | heapStats
  | restartEnd
  deriving DecidableEq, Repr

namespace CloseRule

/-- The name of a rule. -/
def label : CloseRule → String
  | .heapStats => "heap-stats"
  | .restartEnd => "restart-end"

/-- The rule with a name. -/
def ofLabel? (s : String) : Option CloseRule :=
  if s = "heap-stats" then some .heapStats
  else if s = "restart-end" then some .restartEnd
  else none

end CloseRule

/-- A collection that has ended. -/
structure ClosedCollection where
  processId : ProcessId
  number : UInt32
  generation : UInt32
  reason : CollectionReason
  mode : CollectionMode
  isCompacting : Bool
  start : Instant
  finish : Instant
  /-- Generation sizes after the collection. -/
  heapSizes : GenerationSizes
  /-- Summed over heaps; zero when the producer does not report them. -/
  sizeBefore : GenerationSizes
  sizeAfter : GenerationSizes
  /-- The first suspension charged to the collection. -/
  suspensionDuration : Duration
  /-- All suspensions charged to the collection. -/
  pauseDuration : Duration
  deriving DecidableEq

/-- How long a collection ran. -/
def ClosedCollection.duration (c : ClosedCollection) : Duration := c.finish.since c.start

/-- A collection that goes on, or is held back. -/
structure OpenCollection where
  report : ClosedCollection
  /-- When the threads were suspended for it, until they restart. -/
  suspensionStart : Option Instant
  /-- A suspension was charged to it already. -/
  suspendedOnce : Bool
  deriving DecidableEq

namespace OpenCollection

/-- The collection as it stands, ended at an instant. -/
def finishAt (c : OpenCollection) (now : Instant) : ClosedCollection :=
  { c.report with finish := now }

/-- Charges a suspension. -/
def charge (c : OpenCollection) (pause : Duration) : OpenCollection where
  report :=
    { c.report with
      suspensionDuration := if c.suspendedOnce then c.report.suspensionDuration else pause
      pauseDuration := c.report.pauseDuration.plus pause }
  suspensionStart := c.suspensionStart
  suspendedOnce := true

/-- The threads restart: charges the suspension the collection brought along, or
else the one that is waiting, if any. -/
def restart (c : OpenCollection) (now : Instant) (waiting : Option Instant) : OpenCollection :=
  let resumed := { c with suspensionStart := none }
  match c.suspensionStart.or waiting with
  | some suspendedAt => resumed.charge (now.since suspendedAt)
  | none => resumed

/-- Takes in the sizes of generations, of which the first four count. -/
def addHistory (c : OpenCollection) (generations : List GenerationChange) : OpenCollection :=
  { c with
    report :=
      { c.report with
        sizeBefore := c.report.sizeBefore.addList (generations.map GenerationChange.sizeBefore)
        sizeAfter := c.report.sizeAfter.addList (generations.map GenerationChange.sizeAfter) } }

end OpenCollection

/-- Which of the two collections an event belongs to. -/
inductive CollectionKind where
  | ephemeral
  | background
  deriving DecidableEq, Repr

/-- The collections of a process. -/
structure CollectionTracker where
  closeRule : CloseRule
  background : Option OpenCollection
  ephemeral : Option OpenCollection
  /-- Ended, and held back until its threads restart. -/
  held : Option OpenCollection
  /-- When threads were last suspended, until a collection takes that along. -/
  suspension : Option Instant
  misses : Misses
  deriving DecidableEq

namespace CollectionTracker

/-- No collection is open. -/
def start (rule : CloseRule) : CollectionTracker := ⟨rule, none, none, none, none, Misses.none⟩

/-- Forgets every collection and the waiting suspension. -/
def reset (t : CollectionTracker) : CollectionTracker :=
  { t with background := none, ephemeral := none, held := none, suspension := none }

/-- Which collection an unnamed event belongs to. -/
def currentKind? (t : CollectionTracker) : Option CollectionKind :=
  if t.ephemeral.isSome then some .ephemeral
  else if t.background.isSome then some .background
  else none

/-- The collection that an unnamed event belongs to. -/
def current? (t : CollectionTracker) : Option OpenCollection := t.ephemeral.or t.background

/-- Changes the collection that an unnamed event belongs to. -/
def modifyCurrent (t : CollectionTracker) (f : OpenCollection → OpenCollection) :
    CollectionTracker :=
  match t.ephemeral with
  | some c => { t with ephemeral := some (f c) }
  | none => { t with background := t.background.map f }

/-- Whether an event starts a background collection. -/
def startsBackground (depth mode : UInt32) : Bool :=
  depth == 2 && CollectionMode.ofCode mode == .background

/-- Lets go of the collection that is held back. -/
def release (t : CollectionTracker) : Option ClosedCollection × CollectionTracker :=
  (t.held.map OpenCollection.report, { t with held := none })

/-- The collection that a start event opens. -/
def opened (context : EventContext) (count depth reason mode : UInt32)
    (suspension : Option Instant) : OpenCollection where
  report := {
    processId := context.processId
    number := count
    generation := depth
    reason := CollectionReason.ofCode reason
    mode := CollectionMode.ofCode mode
    isCompacting := false
    start := context.time
    finish := context.time
    heapSizes := GenerationSizes.zero
    sizeBefore := GenerationSizes.zero
    sizeAfter := GenerationSizes.zero
    suspensionDuration := Duration.zero
    pauseDuration := Duration.zero }
  suspensionStart := suspension
  suspendedOnce := false

/-- Opens a collection; one of its kind that is already open is lost. -/
def openCollection (t : CollectionTracker) (context : EventContext)
    (count depth reason mode : UInt32) : CollectionTracker :=
  let c := opened context count depth reason mode t.suspension
  if startsBackground depth mode then
    { t with background := some c, suspension := none,
             misses := t.misses.duplicateStartIf t.background.isSome }
  else
    { t with ephemeral := some c, suspension := none,
             misses := t.misses.duplicateStartIf t.ephemeral.isSome }

/-- Generation sizes are reported. -/
def takeHeapSizes (t : CollectionTracker) (now : Instant) (sizes : GenerationSizes) :
    Option ClosedCollection × CollectionTracker :=
  if t.currentKind?.isNone then (none, { t with misses := t.misses.orphanDetail })
  else
    let t := t.modifyCurrent fun c => { c with report := { c.report with heapSizes := sizes } }
    match t.closeRule, t.ephemeral with
    | .heapStats, some c =>
      let t := { t with ephemeral := none }
      if c.suspensionStart.isNone && t.suspension.isNone then
        (some (c.finishAt now), t)
      else
        let (released, t) := t.release
        (released, { t with held := some { c with report := c.finishAt now } })
    | _, _ => (none, t)

/-- Sizes before and after are reported. -/
def takeHeapHistory (t : CollectionTracker) (generations : List GenerationChange) :
    CollectionTracker :=
  if t.currentKind?.isNone then { t with misses := t.misses.orphanDetail }
  else t.modifyCurrent fun c => c.addHistory generations

/-- The bit of the mechanisms that says a collection compacts. -/
def compactionBit : UInt32 := 2

/-- The history of a collection is reported, which ends a background one. -/
def takeGlobalHistory (t : CollectionTracker) (now : Instant) (condemned mechanisms : UInt32) :
    Option ClosedCollection × CollectionTracker :=
  match t.currentKind? with
  | none => (none, { t with misses := t.misses.orphanDetail })
  | some kind =>
    let compacting := mechanisms &&& compactionBit != 0
    let t := t.modifyCurrent fun c =>
      { c with report := { c.report with isCompacting := compacting } }
    if condemned ≠ 2 ∨ kind ≠ .background then (none, t)
    else
      match t.background with
      | some c =>
        if c.report.generation = condemned then
          (some (c.finishAt now), { t with background := none })
        else (none, t)
      | none => (none, t)

/-- Threads restart. -/
def takeRestart (t : CollectionTracker) (now : Instant) :
    Option ClosedCollection × CollectionTracker :=
  let waiting := t.suspension
  let t := { t with suspension := none }
  match t.held with
  | some c => (some (c.restart now waiting).report, { t with held := none })
  | none =>
    if t.currentKind?.isNone then (none, { t with misses := t.misses.orphanStop })
    else
      let t := t.modifyCurrent fun c => c.restart now waiting
      match t.closeRule, t.ephemeral with
      | .restartEnd, some c => (some (c.finishAt now), { t with ephemeral := none })
      | _, _ => (none, t)

/-- Takes in an event; gives the collection it ended, if any. -/
def step (t : CollectionTracker) (context : EventContext) :
    CollectionEvent → Option ClosedCollection × CollectionTracker
  | .triggered _ =>
    let (released, t) := t.release
    (released, t.reset)
  | .start count depth reason mode =>
    let (released, t) := t.release
    (released, t.openCollection context count depth reason mode)
  | .suspendBegin _ =>
    let (released, t) := t.release
    (released, { t with suspension := some context.time })
  | .heapStats sizes => t.takeHeapSizes context.time sizes
  | .perHeapHistory generations => (none, t.takeHeapHistory generations)
  | .globalHeapHistory condemned mechanisms =>
    t.takeGlobalHistory context.time condemned mechanisms
  | .restartEnd => t.takeRestart context.time

/-- A background collection is open. -/
def hasBackground (t : CollectionTracker) : Bool := t.background.isSome

/-- Another collection is open. -/
def hasEphemeral (t : CollectionTracker) : Bool := t.ephemeral.isSome

/-- A collection is held back. -/
def hasHeld (t : CollectionTracker) : Bool := t.held.isSome

end CollectionTracker
end RuntimeTrace
