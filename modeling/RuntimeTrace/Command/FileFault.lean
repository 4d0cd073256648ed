/-!
# Faults of files

A file that a session asks for may be missing, or be no file at all.  The fault is
the operating system's, and so is its wording: a sentence and the number that the
system gives it.
-/

namespace RuntimeTrace

/-- Why a file cannot be opened, read or written. -/
inductive FileFault where
  | notFound
  | denied
  /-- A path leads through something that is not a directory. -/
  | notDirectory
  | isDirectory
  /-- The device takes nothing more. -/
  | noSpace
  | nameTooLong
  /-- Anything else, in the words of the system. -/
  | other (reason : String)
  deriving DecidableEq, Repr

namespace FileFault

/-- The faults that have a number, with their sentences. -/
def numbered : List (Nat × FileFault × String) :=
  [(2, .notFound, "No such file or directory"), (13, .denied, "Permission denied"),
    (20, .notDirectory, "Not a directory"), (21, .isDirectory, "Is a directory"),
    (28, .noSpace, "No space left on device"), (36, .nameTooLong, "File name too long")]

/-- The fault with a number. -/
def ofNumber? (number : Nat) : Option FileFault := (numbered.lookup number).map Prod.fst

/-- The wording of a fault. -/
def message (fault : FileFault) : String :=
  match fault, numbered.find? fun entry => entry.2.1 = fault with
  | .other reason, _ => reason
  | _, some (number, _, sentence) => s!"{sentence} (os error {number})"
  | _, none => ""

end FileFault

/-- What an opened file gives. -/
inductive FileStream where
  | bytes (content : List UInt8)
  /-- It can be opened, but every attempt to read from it fails. -/
  | broken (fault : FileFault)
  deriving DecidableEq

end RuntimeTrace
