import RuntimeTrace.Binary64.Numeral
import RuntimeTrace.ProcessState

/-!
# Command line options

Settings take a value, which stands in the next argument or is attached:
`--top 5`, `--top=5`, `-p7`, `-p=7`.  Switches take none, and the short ones may be
run together: `-qp 7` is a switch and a setting.  Nothing may be given twice, and
there are no arguments without a name.

## Which of two faults is reported

A setting is not completed before the next known option or the end of the line.
Only then is its value looked at, and first of all whether there is one, then
whether the setting was given before, then whether the value means anything.  An
argument that is not known is reported at once, whatever is wrong with the setting
before it; so is a value attached to a long switch.

An argument that looks like an option is never the value of the setting before it,
so a negative number has to be attached.  A lone dash is a value.  After a double
dash nothing is an option, hence everything an unknown argument.
-/

namespace RuntimeTrace

/-- An option that takes a value. -/
inductive Setting where
  | input
  | pid
  | events
  | gcCloseRule
  | minWaitMs
  | exportTo
  | top
  deriving DecidableEq, Repr

/-- An option without a value. -/
inductive Switch where
  | headless
  | quiet
  deriving DecidableEq, Repr

/-- Anything that has a name. -/
inductive OptionName where
  | setting (setting : Setting)
  | switch (switch : Switch)
  | help
  deriving DecidableEq, Repr

namespace OptionName

/-- The option with a long name. -/
def ofLong? (name : String) : Option OptionName :=
  [("input", setting .input), ("pid", setting .pid), ("events", setting .events),
    ("gc-close-rule", setting .gcCloseRule), ("min-wait-ms", setting .minWaitMs),
    ("export", setting .exportTo), ("top", setting .top), ("headless", switch .headless),
    ("quiet", switch .quiet), ("help", help)].lookup name

/-- The option with a short name. -/
def ofShort? (name : Char) : Option OptionName :=
  [('i', setting .input), ('p', setting .pid), ('q', switch .quiet), ('h', help)].lookup name

end OptionName

/-- Why a command line is not understood. -/
inductive UsageError where
  | unknownArgument
  /-- A value is missing or empty, or is none of the words that are allowed. -/
  | badValue
  /-- A value does not have the right form. -/
  | illFormedValue
  /-- An option is given twice. -/
  | givenTwice
  /-- A switch has a value attached. -/
  | unwantedValue
  /-- Not an error: help was asked for. -/
  | helpWanted
  deriving DecidableEq, Repr

/-- What the command line asks for. -/
structure Options where
  input : Option String
  pid : Option ProcessId
  /-- The families of events that are read. -/
  families : FamilySet
  closeRule : CloseRule
  minWaitMs : Binary64
  exportTo : Option String
  /-- Types shown in a summary. -/
  top : Nat
  headless : Bool
  quiet : Bool

namespace Options

/-- What an empty command line asks for. -/
def default : Options where
  input := none
  pid := none
  families := FamilySet.all
  closeRule := .heapStats
  minWaitMs := Binary64.zero
  exportTo := none
  top := 10
  headless := false
  quiet := false

/-- The input file; none for standard input, which may also be written as a
dash. -/
def inputPath (o : Options) : Option String :=
  match o.input with
  | some "-" => none
  | input => input

/-- How the trace is to be read. -/
def policy (o : Options) : Policy :=
  ⟨o.closeRule, o.families, Duration.ofMillis o.minWaitMs⟩

/-- A whole number, with a sign if one likes. -/
def integer? (text : String) : Option Int :=
  let (minus, cs) := Text.takeSign text.toList
  (Text.number? cs).map fun n => if minus then -(n : Int) else n

/-- A process number. -/
def pid? (text : String) : Option ProcessId := do
  let n ← integer? text
  if 0 ≤ n && n.toNat < UInt32.size then some (UInt32.ofNat n.toNat) else none

/-- A count; it has no minus sign. -/
def count? (text : String) : Option Nat := do
  let n ← match text.toList with
    | '+' :: cs => Text.number? cs
    | cs => Text.number? cs
  if n < UInt64.size then some n else none

/-- The value, if there is one. -/
def orFault {α : Type} (fault : UsageError) : Option α → Except UsageError α
  | some a => .ok a
  | none => .error fault

/-- A file name, which is not empty. -/
def path? (text : String) : Option String := if text = "" then none else some text

/-- Puts a value in place. -/
def set (o : Options) (setting : Setting) (value : String) : Except UsageError Options :=
  match setting with
  | .input => (orFault .badValue (path? value)).map fun path => { o with input := some path }
  | .exportTo =>
    (orFault .badValue (path? value)).map fun path => { o with exportTo := some path }
  | .pid => (orFault .illFormedValue (pid? value)).map fun pid => { o with pid := some pid }
  | .events =>
    (orFault .illFormedValue (FamilySet.parse value).toOption).map fun families =>
      { o with families := families }
  | .gcCloseRule =>
    (orFault .badValue (CloseRule.ofLabel? value)).map fun rule => { o with closeRule := rule }
  | .minWaitMs =>
    (orFault .illFormedValue (Binary64.parse? value)).map fun ms => { o with minWaitMs := ms }
  | .top => (orFault .illFormedValue (count? value)).map fun n => { o with top := n }

/-- Turns a switch on. -/
def turnOn (o : Options) : Switch → Options
  | .headless => { o with headless := true }
  | .quiet => { o with quiet := true }

end Options

/-- A setting whose value has not been looked at. -/
inductive PendingSetting where
  | none
  /-- The value may be the next argument. -/
  | awaiting (setting : Setting)
  | given (setting : Setting) (value : String)
  deriving DecidableEq

/-- A command line read up to some argument. -/
structure OptionReader where
  options : Options
  /-- What was completed so far. -/
  seen : List OptionName
  pending : PendingSetting

namespace OptionReader

/-- Nothing has been read. -/
def start : OptionReader := ⟨Options.default, [], .none⟩

/-- Notes that an option was given, which is not allowed twice. -/
def once (r : OptionReader) (name : OptionName) : Except UsageError OptionReader :=
  if r.seen.contains name then .error .givenTwice
  else .ok { r with seen := name :: r.seen }

/-- Completes a setting with a value. -/
def assign (r : OptionReader) (setting : Setting) (value : String) :
    Except UsageError OptionReader := do
  let r ← r.once (.setting setting)
  return { r with options := ← r.options.set setting value }

/-- Completes the setting that is pending, if any. -/
def settle (r : OptionReader) : Except UsageError OptionReader :=
  match r.pending with
  | .none => .ok r
  | .awaiting _ => .error .badValue
  | .given setting value => { r with pending := .none }.assign setting value

/-- A setting with an attached value, or one that waits for its value. -/
def onSetting (r : OptionReader) (setting : Setting) (attached : Option String) :
    Except UsageError OptionReader := do
  let r ← r.settle
  match attached with
  | some value => r.assign setting value
  | none => return { r with pending := .awaiting setting }

/-- A switch. -/
def onSwitch (r : OptionReader) (switch : Switch) : Except UsageError OptionReader := do
  let r ← (← r.settle).once (.switch switch)
  return { r with options := r.options.turnOn switch }

/-- A call for help. -/
def onHelp (r : OptionReader) : Except UsageError OptionReader := do
  let _ ← r.settle
  .error .helpWanted

/-- An argument after two dashes. -/
def onLong (r : OptionReader) (name : String) (attached : Option String) :
    Except UsageError OptionReader :=
  match OptionName.ofLong? name, attached with
  | none, _ => .error .unknownArgument
  | some (.setting setting), attached => r.onSetting setting attached
  | some (.switch switch), none => r.onSwitch switch
  | some .help, none => r.onHelp
  | some _, some _ => .error .unwantedValue

/-- The value attached to a short setting. -/
def attachedShort : List Char → Option String
  | [] => none
  | '=' :: value => some (String.ofList value)
  | value => some (String.ofList value)

/-- The letters after one dash: switches, up to a setting, which takes the
rest. -/
def onShort (r : OptionReader) : List Char → Except UsageError OptionReader
  | [] => .ok r
  | c :: rest =>
    match OptionName.ofShort? c with
    | none => .error .unknownArgument
    | some (.setting setting) => r.onSetting setting (attachedShort rest)
    | some (.switch switch) =>
      match r.onSwitch switch with
      | .error e => .error e
      | .ok r => r.onShort rest
    | some .help => r.onHelp

/-- An argument that is no option: the value that is awaited, or unknown. -/
def onPlain (r : OptionReader) (argument : String) : Except UsageError OptionReader :=
  match r.pending with
  | .awaiting setting => .ok { r with pending := .given setting argument }
  | _ => .error .unknownArgument

/-- Cuts a long option at its first equals sign. -/
def splitLong (cs : List Char) : String × Option String :=
  match cs.dropWhile (· != '=') with
  | _ :: value => (String.ofList (cs.takeWhile (· != '=')), some (String.ofList value))
  | [] => (String.ofList cs, none)

/-- Takes in an argument other than the double dash. -/
def step (r : OptionReader) (argument : String) : Except UsageError OptionReader :=
  match argument.toList with
  | '-' :: '-' :: cs =>
    let (name, attached) := splitLong cs
    r.onLong name attached
  | '-' :: c :: cs => r.onShort (c :: cs)
  | _ => r.onPlain argument

/-- Reads the arguments that are left. -/
def read (r : OptionReader) : List String → Except UsageError Options
  | [] => r.settle.map OptionReader.options
  | argument :: rest =>
    if argument = "--" then
      match rest with
      | [] => r.settle.map OptionReader.options
      | _ :: _ => .error .unknownArgument
    else
      match r.step argument with
      | .error e => .error e
      | .ok r => r.read rest

end OptionReader

/-- Reads a command line, without the name of the program. -/
def Options.parse (arguments : List String) : Except UsageError Options :=
  OptionReader.start.read arguments

end RuntimeTrace
