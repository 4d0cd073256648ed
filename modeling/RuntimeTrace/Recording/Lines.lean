import RuntimeTrace.Json.Reader
import RuntimeTrace.Recording.Record
import RuntimeTrace.Text.Blank
import RuntimeTrace.Text.Line
import RuntimeTrace.Text.Utf8

/-!
# Recorded traces

A recorded trace is text, one record a line.  Blank lines and lines that begin
with `#` hold no record; they still count, so that a line number in a message is
the number an editor shows.

A trace that arrives as bytes is cut into lines first, and each line is then
decoded by itself, without its ending: damage in one line does not reach into the
next, and a sequence that the end of its line cuts short is incomplete.
-/

namespace RuntimeTrace

/-- Why a recorded trace cannot be read. -/
inductive RecordingError where
  /-- A line is neither blank nor a comment nor a record. -/
  | invalidRecord (line : Nat)
  /-- A line is not text. -/
  | readFailed
  deriving DecidableEq

/-- The wording of the error. -/
def RecordingError.message : RecordingError → String
  | .invalidRecord line => s!"Failed to parse trace record on line {line}"
  | .readFailed => "Failed to read trace input: stream did not contain valid UTF-8"

namespace Recording

/-- A line of input. -/
inductive Line where
  | text (s : String)
  | undecodable (fault : Utf8.Fault)
  deriving DecidableEq

/-- The lines of a text. -/
def linesOfText (s : String) : List Line :=
  (Text.lines s).map .text

/-- The byte that ends a line. -/
def lineFeed : UInt8 := 10

/-- The byte that may stand before a line feed. -/
def carriageReturn : UInt8 := 13

/-- A run of bytes up to and with a line feed as a line. -/
def lineOfBytes (bytes : List UInt8) : Line :=
  match Utf8.decode (Text.dropEnding lineFeed carriageReturn bytes) with
  | .ok cs => .text (String.ofList cs)
  | .error fault => .undecodable fault

/-- The lines of a run of bytes. -/
def linesOfBytes (bytes : List UInt8) : List Line :=
  (Text.cutAfter lineFeed bytes).map lineOfBytes

end Recording

open Recording

namespace Record

/-- A line that is blank or a comment once it is trimmed. -/
def isSkipped (trimmed : List Char) : Bool :=
  match trimmed with
  | [] => true
  | c :: _ => c == '#'

/-- Reads one line; a blank line and a comment hold no record. -/
def ofLine (line : String) (number : Nat) : Except RecordingError (Option Record) :=
  let trimmed := Text.trim line
  if isSkipped trimmed.toList then .ok none
  else
    match (Json.parse trimmed).bind ofJson? with
    | some record => .ok (some record)
    | none => .error (.invalidRecord number)

/-- Reads lines from a number on, up to the first error. -/
def readLines : Nat → List Line → Except RecordingError (List Record)
  | _, [] => .ok []
  | _, .undecodable _ :: _ => .error .readFailed
  | number, .text s :: rest =>
    match ofLine s number with
    | .error e => .error e
    | .ok record? =>
      match readLines (number + 1) rest with
      | .error e => .error e
      | .ok records => .ok (record?.toList ++ records)

/-- Reads every record of a recorded trace, or reports the first error. -/
def readTrace (lines : List Line) : Except RecordingError (List Record) := readLines 1 lines

end Record
end RuntimeTrace
