import RuntimeTrace.Command.Session
import RuntimeTrace.Json.Printer

/-!
# The program

Reads what the session may look at, runs it, and carries out what it decided.
-/

namespace RuntimeTrace

/-- Reads a stream to its end. -/
partial def readToEnd (stream : IO.FS.Stream) (before : ByteArray) : IO ByteArray := do
  let chunk ← stream.read 65536
  if chunk.isEmpty then return before
  readToEnd stream (before ++ chunk)

/-- The number that the system gives an error, where it has one. -/
def systemNumber? : IO.Error → Option UInt32
  | .noFileOrDirectory _ number _ => some number
  | .inappropriateType _ number _ => some number
  | .invalidArgument _ number _ => some number
  | .permissionDenied _ number _ => some number
  | .resourceExhausted _ number _ => some number
  | .otherError number _ => some number
  | _ => none

/-- An error as the fault of a file. -/
def faultOf (e : IO.Error) : FileFault :=
  ((systemNumber? e).bind fun number => FileFault.ofNumber? number.toNat).getD (.other (toString e))

/-- Opens a file and reads it to its end. -/
def readNamedFile (path : String) : IO (Except FileFault FileStream) := do
  match ← (IO.FS.Handle.mk path .read).toBaseIO with
  | .error e => return .error (faultOf e)
  | .ok handle =>
    match ← handle.readBinToEnd.toBaseIO with
    | .error e => return .ok (.broken (faultOf e))
    | .ok content => return .ok (.bytes content.toList)

/-- Writes an exported file; tells why if that fails. -/
def writeExport (path : String) (value : Json) : IO (Except FileFault Unit) := do
  let write : IO Unit := do
    let handle ← IO.FS.Handle.mk path .write
    handle.putStr (value.pretty 0)
    handle.flush
  match ← write.toBaseIO with
  | .error e => return .error (faultOf e)
  | .ok () => return .ok ()

/-- Runs a session as if the export succeeded; if it does not, runs it again with
the reason. -/
def runSession (surroundings : Surroundings) : IO SessionResult := do
  let result := Session.run surroundings
  match result.written with
  | none => return result
  | some (path, value) =>
    match ← writeExport path value with
    | .ok () => return result
    | .error fault =>
      return Session.run { surroundings with createFile := fun _ => .error fault }

end RuntimeTrace

open RuntimeTrace in
/-- Runs the program. -/
def main (arguments : List String) : IO UInt32 := do
  let started ← IO.monoMsNow
  let options := (Options.parse arguments).toOption.getD Options.default
  let file ← readNamedFile (options.inputPath.getD "")
  let input ← if options.inputPath.isNone then readToEnd (← IO.getStdin) ByteArray.empty
    else pure ByteArray.empty
  let ended ← IO.monoMsNow
  let result ← runSession {
    arguments := arguments
    openFile := fun _ => file
    createFile := fun _ => .ok ()
    standardInput := input.toList
    elapsedMs := some (ended - started) }
  IO.print result.output
  for line in result.notices do IO.eprintln line
  return result.exitCode
