import Recast.Artifact.Kind
import Recast.Diagnostic
import Recast.Artifact.Path
import Recast.Machine

/-!
# Writing the files

Every file is written below the output root, over what is there. A file that
cannot be written is reported and keeps no other from being written.
-/

namespace Recast

/-- Where a write broke off, and why. -/
inductive WriteFault
  | directory (path : String) (cause : DiskFault)
  | file (path : String) (cause : DiskFault)
  deriving DecidableEq, Repr

def WriteFault.message : WriteFault → String
  | directory path cause => "Failed to create directory " ++ path ++ ": " ++ cause.message
  | file path cause => "Failed to write " ++ path ++ ": " ++ cause.message

abbrev WriteResult := Except WriteFault Unit

structure PersistReport where
  written : List GeneratedFile := []
  diagnostics : Diagnostics := {}
  deriving DecidableEq, Repr

namespace PersistReport

def add (r : PersistReport) (write : GeneratedFile × WriteResult) : PersistReport :=
  match write.2 with
  | .ok () => { r with written := r.written ++ [write.1] }
  | .error e => { r with diagnostics := r.diagnostics.record .generationError e.message }

def ofWrites (writes : List (GeneratedFile × WriteResult)) : PersistReport := writes.foldl add {}

end PersistReport

namespace Machine

variable {m : Type → Type} [Monad m]

/-- Makes the directory of the file, then writes it. -/
def writeFile (w : Machine m) (root : String) (f : GeneratedFile) : m WriteResult := do
  let target := Path.join root.toList f.path.toList
  let path := String.ofList target
  let made ←
    match Path.parent? target with
    | none => pure (.ok ())
    | some dir => do
      let dir := String.ofList dir
      pure ((← w.makeDirectories dir).mapError (.directory dir))
  match made with
  | .error e => return .error e
  | .ok () => return (← w.write path f.content).mapError (.file path)

/-- Writes the files in turn and pairs each with what became of it. -/
def writeFiles (w : Machine m) (root : String) (files : List GeneratedFile) :
    m (List (GeneratedFile × WriteResult)) :=
  files.mapM fun f => do return (f, ← w.writeFile root f)

end Machine

end Recast
