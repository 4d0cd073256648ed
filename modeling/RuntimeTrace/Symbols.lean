import RuntimeTrace.Event.Runtime
import RuntimeTrace.Table
import RuntimeTrace.Text.Hexadecimal

/-!
# Names for instruction addresses

Stacks hold addresses.  An address inside a known method body has the method's
name; any other may be known to a resolver for native code, which the library is
handed as a function; what nobody knows is shown in hexadecimal.

## Answers are final

Every answer is remembered, the hexadecimal ones too, and never revised.  A
method that is loaded after one of its addresses was asked for does not get that
address back.  This keeps the names in a report consistent with each other, and
bounds the work: `scans` counts the answers that were not already remembered.
-/

namespace RuntimeTrace

/-- A method body and its name. -/
structure Method where
  start : UInt64
  size : UInt32
  fullName : String
  deriving DecidableEq

namespace Method

/-- The parameter list of a signature: what follows the first `"  ("`, from the
bracket on. -/
def parameters? : List Char → Option (List Char)
  | ' ' :: ' ' :: '(' :: rest => some ('(' :: rest)
  | _ :: rest => parameters? rest
  | [] => none

/-- The parameters as shown; a signature without a parameter list has
`(???)`. -/
def parameters (signature : String) : String :=
  match parameters? signature.toList with
  | some cs => String.ofList cs
  | none => "(???)"

/-- The method that was loaded, under its full name.  A constructor goes by the name
of its type. -/
def ofLoad (load : MethodLoad) : Method where
  start := load.start
  size := load.size
  fullName :=
    if load.name = ".ctor" then load.typeName ++ parameters load.signature
    else load.typeName ++ "." ++ load.name ++ parameters load.signature

/-- Whether an address lies in the body. -/
def contains (m : Method) (address : UInt64) : Bool :=
  m.start.toNat ≤ address.toNat && address.toNat - m.start.toNat < m.size.toNat

end Method

/-- A resolver for addresses outside every known method. -/
abbrev NativeNames := UInt64 → Option String

/-- The known methods of a process and the names given out so far. -/
structure Symbols where
  /-- In the order they were loaded. -/
  methods : List Method
  native : NativeNames
  answers : Table UInt64 String
  /-- Addresses that had to be looked up. -/
  scans : Nat

namespace Symbols

/-- No methods and no resolver. -/
def empty : Symbols := ⟨[], fun _ => none, Table.empty, 0⟩

instance : Inhabited Symbols := ⟨empty⟩

/-- Adds a method. -/
def addMethod (s : Symbols) (m : Method) : Symbols := { s with methods := s.methods ++ [m] }

/-- Puts another resolver in place. -/
def setNative (s : Symbols) (native : NativeNames) : Symbols := { s with native := native }

/-- The name an address has by what is known now: that of the method loaded first
among those that contain it, else the resolver's, else its digits. -/
def lookup (s : Symbols) (address : UInt64) : String :=
  match s.methods.find? fun m => m.contains address with
  | some m => m.fullName
  | none => (s.native address).getD (Hexadecimal.address address)

/-- The name of an address, remembered from the first time on. -/
def resolve (s : Symbols) (address : UInt64) : String × Symbols :=
  match s.answers.get? address with
  | some name => (name, s)
  | none =>
    let name := s.lookup address
    (name, { s with answers := s.answers.insert address name, scans := s.scans + 1 })

end Symbols

/-- A frame of a stack with its name. -/
structure Frame where
  address : UInt64
  symbol : String
  deriving DecidableEq, Repr

/-- The name a frame is shown under; a frame with an empty name is shown by its
address. -/
def Frame.shownName (f : Frame) : String :=
  if f.symbol = "" then Hexadecimal.address f.address else f.symbol

/-- Names every address of a stack, in order. -/
def Symbols.frames (s : Symbols) : List UInt64 → List Frame × Symbols
  | [] => ([], s)
  | address :: rest =>
    let (name, s) := s.resolve address
    let (frames, s) := s.frames rest
    (⟨address, name⟩ :: frames, s)

end RuntimeTrace
