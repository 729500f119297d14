import Recast.Disk.Fault
import Recast.Tool.Outcome

/-!
# Machines

All that a conversion needs from outside: files, tools and a clock. Everything
else is worked out from the answers of a machine.
-/

namespace Recast

structure Machine (m : Type → Type) where
  read : String → m (Except DiskFault ByteArray)
  write : String → String → m (Except DiskFault Unit)
  makeDirectories : String → m (Except DiskFault Unit)
  run : Command → m RunResult
  /-- Milliseconds since some moment in the past. -/
  now : m Nat

namespace Machine

/-- The text of a file. -/
def readText {m : Type → Type} [Monad m] (w : Machine m) (path : String) :
    m (Except DiskFault String) := do
  match ← w.read path with
  | .error e => return .error e
  | .ok bytes =>
    match String.fromUTF8? bytes with
    | some s => return .ok s
    | none => return .error (.other "stream did not contain valid UTF-8")

end Machine

end Recast
