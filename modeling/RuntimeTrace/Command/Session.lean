import RuntimeTrace.Command.FileFault
import RuntimeTrace.Command.Options
import RuntimeTrace.Command.Summary
import RuntimeTrace.Recording.Lines

/-!
# A session

One run of the program: it reads a recorded trace, shows intervals as they are
completed, and ends with summaries and, if asked to, an exported file of trace events.

A session is a function of what surrounds it --- the arguments, the files that
can be read and written, standard input --- to what it prints and writes.  All
that is left to the outermost layer is to hand over the one and carry out the
other.

## Views

The *live view* shows the headline of each interval, numbered.  It takes what the
monitor sends it through a bounded outlet, and keeps up, so nothing is dropped.
*Headless* shows whole intervals instead.  *Quiet* has no live view, no banner and
no summaries; with headless it still shows the intervals and the counts.

## Failures

A malformed line is counted and skipped.  A line that is not text ends the session
at once, and so does an input that can be opened but not read.  An export that fails
does so after everything else was shown.
-/

namespace RuntimeTrace

/-- What a session may look at and ask for.  Operations on files take paths. -/
structure Surroundings where
  arguments : List String
  openFile : String → Except FileFault FileStream
  /-- Whether a file can be written. -/
  createFile : String → Except FileFault Unit
  standardInput : List UInt8
  /-- How long it took to read the trace, in milliseconds, if that is measured. -/
  elapsedMs : Option Nat

/-- What a session leaves behind. -/
structure SessionResult where
  exitCode : UInt32
  /-- What it printed. -/
  output : String
  /-- The lines it reported beside that. -/
  notices : List String
  /-- A file it wrote, with the value that the file holds. -/
  written : Option (String × Json)

/-- Why a session fails. -/
inductive SessionError where
  /-- The shortest wait to report is negative or not a number. -/
  | badMinWait
  | openFailed (path : String) (fault : FileFault)
  | readFailed (fault : FileFault)
  /-- A line is not text. -/
  | undecodable (fault : Utf8.Fault)
  | exportFailed (fault : FileFault)
  deriving DecidableEq

namespace SessionError

/-- What failed. -/
def headline : SessionError → String
  | .badMinWait => "invalid argument: --min-wait-ms must be a non-negative number"
  | .openFailed path _ => "Failed to open trace input: " ++ path
  | .readFailed _ => "Failed to read trace input"
  | .undecodable _ => "Failed to read trace input"
  | .exportFailed _ => "Failed to export trace"

/-- Why it failed, where that is not clear. -/
def reason? : SessionError → Option String
  | .badMinWait => none
  | .openFailed _ fault => some fault.message
  | .readFailed fault => some fault.message
  | .undecodable fault => some fault.message
  | .exportFailed fault => some fault.message

/-- The wording of the error. -/
def message (e : SessionError) : String :=
  "error: " ++ e.headline ++ match e.reason? with
    | some reason => ": " ++ reason
    | none => ""

/-- Whether a text begins with a word. -/
def startsWith : List Char → List Char → Bool
  | [], _ => true
  | _ :: _, [] => false
  | w :: word, c :: cs => w == c && startsWith word cs

/-- Whether a word occurs in a text. -/
def mentions (word : List Char) : List Char → Bool
  | [] => word.isEmpty
  | c :: cs => startsWith word (c :: cs) || mentions word cs

/-- A failure that speaks of an invalid argument is one of usage. -/
def exitCode (e : SessionError) : UInt32 :=
  if mentions "invalid argument".toList (e.headline.toList.map Char.toLower) then 2 else 1

end SessionError

/-- How far a session has come. -/
structure Session where
  options : Options
  monitor : Monitor
  /-- Lines read, blank ones included. -/
  lines : Nat
  malformed : Nat
  /-- Intervals shown in the live view. -/
  shown : Nat
  /-- What was printed, latest first. -/
  printed : List String

namespace Session

/-- Intervals that wait for the live view at most. -/
def liveCapacity : Nat := 1000

/-- Whether there is a live view. -/
def isLive (o : Options) : Bool := !o.headless && !o.quiet

/-- Nothing has been read. -/
def start (o : Options) : Session where
  options := o
  monitor := Monitor.start o.policy o.pid o.exportTo.isSome
    (if isLive o then some (Outlet.ofCapacity liveCapacity) else none)
  lines := 0
  malformed := 0
  shown := 0
  printed := []

/-- Shows an interval in the live view. -/
def showLive (s : Session) (interval : Interval) : Session :=
  let shown := s.shown + 1
  let line := Text.rightAlign 6 (toString shown) ++ " " ++ processText interval.processId ++ " " ++
    Text.firstLine interval.text ++ "\n"
  { s with shown := shown, printed := line :: s.printed }

/-- Takes in a record and shows what it completed. -/
def onRecord (s : Session) (record : Record) : Session :=
  let (interval?, monitor) := s.monitor.step record
  let s := match interval? with
    | some interval =>
      if s.options.headless then { s with printed := (interval.text ++ "\n") :: s.printed } else s
    | none => s
  let (waiting, monitor) := monitor.drain
  waiting.foldl showLive { s with monitor := monitor }

/-- Takes in a line. -/
def onLine (s : Session) (line : String) : Session :=
  let s := { s with lines := s.lines + 1 }
  match Record.ofLine line s.lines with
  | .ok (some record) => s.onRecord record
  | .ok none => s
  | .error _ => { s with malformed := s.malformed + 1 }

/-- Takes in lines up to one that is not text. -/
def onLines (s : Session) : List Recording.Line → Option Utf8.Fault × Session
  | [] => (none, s)
  | .undecodable fault :: _ => (some fault, s)
  | .text line :: rest => (s.onLine line).onLines rest

/-- Everything printed so far. -/
def output (s : Session) : String := String.join s.printed.reverse

/-- What is told before the trace is read. -/
def banner (o : Options) : List String :=
  if o.quiet then []
  else
    ["clrscope v0.1.0", "input: " ++ o.inputPath.getD "stdin"] ++
    (o.pid.map fun pid => "pid: " ++ processText pid).toList ++
    (o.exportTo.map fun path => "export: " ++ path).toList

/-- How much was read, and how long it took. -/
def closing (s : Session) (elapsedMs : Option Nat) : List String :=
  if s.options.quiet && !s.options.headless then []
  else
    let elapsed := match elapsedMs with
      | some ms => ((Binary64.ofNat ms).divNat 1000).fixed 1 ++ "s, "
      | none => ""
    let lines := s.lines
    let malformed := s.malformed
    let dropped := s.monitor.dropped
    ["", "end of input: " ++ elapsed ++
      s!"{lines} lines ({malformed} malformed), {dropped} dropped by the live view"] ++
      Summary.counts s.monitor.stats s.monitor.misses

/-- The summaries of all processes. -/
def summaries (s : Session) : String :=
  if s.options.quiet then ""
  else String.join (s.monitor.byProcess.map fun state => Summary.process state s.options.top)

/-- Ends a session whose trace was read to the end. -/
def finish (s : Session) (w : Surroundings) : SessionResult :=
  let output := s.output ++ s.summaries
  let notices := banner s.options ++ s.closing w.elapsedMs
  match s.options.exportTo, s.monitor.kept with
  | some path, some events =>
    match w.createFile path with
    | .ok () =>
      let count := events.length
      let saved := if s.options.quiet then []
        else ["saved: " ++ path ++ s!" ({count} events)"]
      ⟨0, output, notices ++ saved, some (path, TraceEvents.toJson events)⟩
    | .error fault =>
      let e := SessionError.exportFailed fault
      ⟨e.exitCode, output, notices ++ [e.message], none⟩
  | _, _ => ⟨0, output, notices, none⟩

/-- A session that fails before anything is read. -/
def refuse (e : SessionError) : SessionResult := ⟨e.exitCode, "", [e.message], none⟩

/-- A session that fails while the trace is read. -/
def stop (s : Session) (e : SessionError) : SessionResult :=
  ⟨e.exitCode, s.output, banner s.options ++ [e.message], none⟩

/-- Reads a trace and ends the session. -/
def readTrace (o : Options) (w : Surroundings) : FileStream → SessionResult
  | .broken fault => (start o).stop (.readFailed fault)
  | .bytes content =>
    match (start o).onLines (Recording.linesOfBytes content) with
    | (none, s) => s.finish w
    | (some fault, s) => s.stop (.undecodable fault)

/-- A duration that makes no sense as the shortest one. -/
def isBadMinWait (ms : Binary64) : Bool := ms.isNaN || (ms.isNegative && !ms.isZero)

/-- Runs a session with options that were understood. -/
def runWith (o : Options) (w : Surroundings) : SessionResult :=
  if isBadMinWait o.minWaitMs then refuse .badMinWait
  else
    match o.inputPath with
    | none => readTrace o w (.bytes w.standardInput)
    | some path =>
      match w.openFile path with
      | .ok stream => readTrace o w stream
      | .error fault => refuse (.openFailed path fault)

end Session

/-- How the program is used. -/
def usageText : String :=
  "Correlate .NET runtime trace events into GC cycles, HTTP timelines and lock waits\n\n" ++
  "Usage: clrscope [OPTIONS]\n\nOptions:\n" ++
  "  -i, --input <FILE>          JSON-lines trace to replay (stdin when omitted or -)\n" ++
  "  -p, --pid <PID>             Only correlate records from this process\n" ++
  "      --events <LIST>         Event families to process, comma separated\n" ++
  "      --gc-close-rule <RULE>  Event that closes a collection: heap-stats or restart-end\n" ++
  "      --min-wait-ms <MS>      Hide lock waits shorter than this\n" ++
  "      --export <FILE>         Export completed records as a trace-viewer file\n" ++
  "      --top <N>               Number of types shown in the summary\n" ++
  "      --headless              Print each record as it completes\n" ++
  "  -q, --quiet                 Suppress non-essential output\n" ++
  "  -h, --help                  Print help\n"

/-- The wording of a usage error. -/
def UsageError.message : UsageError → String
  | .unknownArgument => "error: unexpected argument found"
  | .badValue => "error: a value is required, or is not one of the possible values"
  | .illFormedValue => "error: invalid value for an option"
  | .givenTwice => "error: an option cannot be used multiple times"
  | .unwantedValue => "error: unexpected value for an option"
  | .helpWanted => ""

/-- Runs a session. -/
def Session.run (w : Surroundings) : SessionResult :=
  match Options.parse w.arguments with
  | .ok o => runWith o w
  | .error .helpWanted => ⟨0, usageText, [], none⟩
  | .error e => ⟨2, "", [e.message], none⟩

end RuntimeTrace
