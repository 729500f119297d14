import Recast.CommandLine.Run
import Recast.Shell.Machine

/-!
# The program

Reads the arguments, runs the command line on the files of the system and prints the
result. Tools run in the shell of this library, on a copy of the files that were
written.
-/

namespace Recast.Main

abbrev Program := StateT Disk IO

/-- The code and the text of a fault of the system. -/
def codeOf : IO.Error → Option UInt32
  | .alreadyExists _ code _ | .noFileOrDirectory _ code _ | .permissionDenied _ code _
  | .inappropriateType _ code _ | .invalidArgument _ code _ | .otherError code _ => some code
  | _ => none

def faultOf (e : IO.Error) : DiskFault :=
  let known := [DiskFault.notFound, .denied, .alreadyExists, .notDirectory, .isDirectory,
    .nameTooLong]
  match (codeOf e).bind fun code => known.find? (·.number? == some code.toNat) with
  | some fault => fault
  | none => .other (toString e)

/-- The result of an action, or why it failed. -/
def attempt {α : Type} (action : IO α) : Program (Except DiskFault α) := do
  try return .ok (← action) catch e => return .error (faultOf e)

def machine : Machine Program where
  read path := attempt (IO.FS.readBinFile path)
  write path content := do
    let written ← attempt (IO.FS.writeFile path content)
    if written.isOk then modify fun d => d.plant path (some content.toUTF8)
    return written
  makeDirectories path := if path.isEmpty then return .ok () else attempt (IO.FS.createDirAll path)
  run c := modifyGet (Disk.machine.run c)
  now := IO.monoMsNow

partial def readAll (input : IO.FS.Stream) (text : String) : IO String := do
  let line ← input.getLine
  if line.isEmpty then return text else readAll input (text ++ line)

end Recast.Main

def main (args : List String) : IO UInt32 := do
  let standardInput : Recast.Main.Program String := do Recast.Main.readAll (← IO.getStdin) ""
  let (printed, _) ← (Recast.CommandLine.run Recast.Main.machine standardInput args).run .fresh
  IO.print printed.text
  IO.eprint printed.complaint
  return printed.exitCode.toUInt32
