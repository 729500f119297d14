import Recast.Suite.Component
import Recast.Suite.Hook
import Recast.Suite.Service
import Recast.Suite.Store
import Recast.Suite.Types
import Recast.Suite.Vitest

/-!
# Tests for generated files

Every generated file that is no test gets one test, in the same order. Which
artifacts stand beside it is read off the files.
-/

namespace Recast

/-- The suite for an artifact. A test has none, and its suite holds no scenario. -/
def SuiteContext.suite (c : SuiteContext) : Except SuiteError TestSuite :=
  match c.target with
  | .component => .ok (ComponentSuite.build c)
  | .types => .ok (TypesSuite.build c)
  | .hook => .ok (HookSuite.build c)
  | .service => .ok (ServiceSuite.build c)
  | .store => StoreSuite.build c
  | .test => .ok { name := c.layout.name, target := .test }

namespace TestSuite

def planOf (files : List GeneratedFile) : ArtifactPlan :=
  files.foldl (fun p f => p.add f.kind) {}

/-- The test of one file. -/
def testFor (f : Facts) (layout : ArtifactLayout) (plan : ArtifactPlan) (file : GeneratedFile) :
    Except SuiteError GeneratedFile := do
  let c : SuiteContext := ⟨f, layout, plan, file.kind, file.content⟩
  let suite ← c.suite.mapError (.forFile file.displayPath)
  return ⟨c.testPath, ← suite.write, .test, none⟩

/-- The tests of the files that are no tests themselves. -/
def generate (f : Facts) (files : List GeneratedFile) : Except SuiteError (List GeneratedFile) :=
  let layout := ArtifactLayout.ofName f.name f.tier
  (files.filter (!·.isTest)).mapM (testFor f layout (planOf files))

end TestSuite

end Recast
