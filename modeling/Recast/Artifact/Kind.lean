import Recast.Artifact.Path
import Recast.Component.Tier
import Recast.Text.Str

/-!
# Generated files

An artifact is one generated source file. Its path is relative to the output
root.
-/

namespace Recast

inductive ArtifactKind
  | component
  | types
  | hook
  | service
  | store
  | test
  deriving DecidableEq, Repr

def ArtifactKind.label : ArtifactKind → String
  | component => "component"
  | types => "types"
  | hook => "hook"
  | service => "service"
  | store => "store"
  | test => "test"

structure GeneratedFile where
  path : String
  content : String
  kind : ArtifactKind
  tier? : Option Tier
  deriving DecidableEq, Repr

namespace GeneratedFile

def isTest (f : GeneratedFile) : Bool := f.kind == .test

def lineCount (f : GeneratedFile) : Nat := (Text.lines f.content.toList).length

/-- The path with single separators. -/
def displayPath (f : GeneratedFile) : String :=
  .ofList (Segment.joinAll (Segment.ofPath f.path.toList))

end GeneratedFile

inductive SynthesisError
  | missingInput (what : String)
  | invalidName (name : String)
  | duplicatePath (path : String)
  deriving DecidableEq, Repr

/-- Which artifacts are generated beside the component. -/
structure ArtifactPlan where
  types : Bool := false
  hook : Bool := false
  service : Bool := false
  store : Bool := false
  deriving DecidableEq, Repr

namespace ArtifactPlan

def includes (p : ArtifactPlan) : ArtifactKind → Bool
  | .component => true
  | .types => p.types
  | .hook => p.hook
  | .service => p.service
  | .store => p.store
  | .test => false

def add (p : ArtifactPlan) : ArtifactKind → ArtifactPlan
  | .types => { p with types := true }
  | .hook => { p with hook := true }
  | .service => { p with service := true }
  | .store => { p with store := true }
  | .component | .test => p

end ArtifactPlan

end Recast
