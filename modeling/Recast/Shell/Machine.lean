import Recast.Shell.Run

/-!
# A machine on a disk

The disk keeps the files, the shell runs the tools, and the clock stands still.
-/

namespace Recast.Disk

def machine : Machine (StateM Disk) where
  read path := do return (← get).read path
  write path content := do
    match (← get).write path content.toUTF8 with
    | .ok d => set d; return .ok ()
    | .error e => return .error e
  makeDirectories path := do
    let (d, made) := (← get).makeDirectories path
    set d
    return made
  run c := do
    let (result, d) := Shell.runCommand (← get) c
    set d
    return result
  now := return 0

end Recast.Disk
