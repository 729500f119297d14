import Recast.Artifact.Template.Basic
import Recast.Artifact.Template.Service
import Recast.Artifact.Template.Store

/-!
# Test suites

A suite holds the scenarios for one artifact: imports, code before the suite, code
around each scenario, and the scenarios. It does not depend on how it is written
down.
-/

namespace Recast

inductive ScenarioKind
  | render
  | prop
  | loading
  | error
  | data
  | navigation
  | state
  | accessibility
  | responsive
  | rerender
  | retry
  | shape
  deriving DecidableEq, Repr

/-- A table of values and the name of the parameter that runs through them. -/
structure TableParam where
  table : String
  param : String
  deriving DecidableEq, Repr

structure Scenario where
  name : String
  kind : ScenarioKind
  isAsync : Bool := false
  each? : Option TableParam := none
  body : List String := []
  deriving DecidableEq, Repr

namespace Scenario

/-- A scenario whose body is the lines of the blocks. -/
def ofBlocks (name : String) (kind : ScenarioKind) (blocks : List String) : Scenario :=
  { name, kind, body := blocks.flatMap Str.lines }

def async (s : Scenario) : Scenario := { s with isAsync := true }

def forEach (s : Scenario) (table param : String) : Scenario :=
  { s with each? := some ⟨table, param⟩ }

end Scenario

structure TestSuite where
  name : String
  target : ArtifactKind
  imports : List String := []
  preamble : List String := []
  setup : List String := []
  teardown : List String := []
  tests : List Scenario := []
  deriving DecidableEq, Repr

namespace TestSuite

def addImport (s : TestSuite) (line : String) : TestSuite :=
  if s.imports.contains line then s else { s with imports := s.imports ++ [line] }

def addImports (s : TestSuite) (lines : List String) : TestSuite := lines.foldl addImport s

def addPreamble (s : TestSuite) (block : String) : TestSuite :=
  { s with preamble := s.preamble ++ [block] }

def addTest (s : TestSuite) (t : Scenario) : TestSuite := { s with tests := s.tests ++ [t] }

def count (s : TestSuite) (kind : ScenarioKind) : Nat := s.tests.countP (·.kind == kind)

end TestSuite

/-- Why no test was written. -/
inductive SuiteError
  | noScenarios (suite : String)
  | noState (component : String)
  | forFile (path : String) (cause : SuiteError)
  deriving DecidableEq, Repr

def SuiteError.message : SuiteError → String
  | noScenarios suite => "test suite '" ++ suite ++ "' has no test cases"
  | noState component => "store for " ++ component ++ " has no state bindings to test"
  | forFile path cause => "Failed to build tests for " ++ path ++ ": " ++ cause.message

/-- What a suite is made from: the facts, the layout, the artifacts made beside the
target, and the code of the target. -/
structure SuiteContext where
  facts : Facts
  layout : ArtifactLayout
  plan : ArtifactPlan
  target : ArtifactKind
  content : String

namespace SuiteContext

def testPath (c : SuiteContext) : String := c.layout.testPathFor c.target

/-- The specifier under which the test imports an artifact. -/
def importPath (c : SuiteContext) (kind : ArtifactKind) : String :=
  .ofList (Segment.importPath (Segment.ofPath c.testPath.toList)
    (Segment.ofPath (c.layout.pathFor kind).toList))

/-- Whether the component reads its data through the hook. -/
def usesQuery (c : SuiteContext) : Bool := c.plan.hook && c.facts.features.remoteData

def importNames (c : SuiteContext) (names : List String) (kind : ArtifactKind) : String :=
  Template.importNames names (c.importPath kind)

def importTypes (c : SuiteContext) (names : List String) (kind : ArtifactKind) : String :=
  Template.importTypes names (c.importPath kind)

end SuiteContext

end Recast
