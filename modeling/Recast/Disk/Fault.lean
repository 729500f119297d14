/-!
# Faults of a disk

Why a path cannot be read, written or made. Each fault has the wording and the
number that the system gives it.
-/

namespace Recast

inductive DiskFault
  | notFound
  | denied
  | alreadyExists
  | notDirectory
  | isDirectory
  | nameTooLong
  /-- A name holds the character that ends names. -/
  | endedName
  | other (reason : String)
  deriving DecidableEq, Repr

namespace DiskFault

def text : DiskFault → String
  | notFound => "No such file or directory"
  | denied => "Permission denied"
  | alreadyExists => "File exists"
  | notDirectory => "Not a directory"
  | isDirectory => "Is a directory"
  | nameTooLong => "File name too long"
  | endedName => "file name contained an unexpected NUL byte"
  | other reason => reason

def number? : DiskFault → Option Nat
  | notFound => some 2
  | denied => some 13
  | alreadyExists => some 17
  | notDirectory => some 20
  | isDirectory => some 21
  | nameTooLong => some 36
  | endedName | other _ => none

def message (e : DiskFault) : String :=
  match e.number? with
  | some n => e.text ++ " (os error " ++ toString n ++ ")"
  | none => e.text

end DiskFault

end Recast
