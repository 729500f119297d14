import Recast.Artifact.Kind

/-!
# Layout of the artifacts

Where the artifacts of one component go, and the names by which they refer to each
other. All of it follows from the name of the component and its tier.
-/

namespace Recast

structure ArtifactLayout where
  name : String
  camel : String
  tier : Tier
  deriving DecidableEq, Repr

namespace ArtifactLayout

def ofName (componentName : String) (tier : Tier) : ArtifactLayout :=
  let name := Text.pascalCase componentName.toList
  ⟨.ofList name, .ofList (Text.camelCase name), tier⟩

def kebab (l : ArtifactLayout) : String := .ofList (Text.kebabCase l.name.toList)

def propsType (l : ArtifactLayout) : String := l.name ++ "Props"

def stateType (l : ArtifactLayout) : String := l.name ++ "State"

def dataType (l : ArtifactLayout) : String := l.name ++ "Data"

def hookName (l : ArtifactLayout) : String := "use" ++ l.name ++ "Data"

def queryKey (l : ArtifactLayout) : String := l.camel ++ "QueryKey"

def serviceClass (l : ArtifactLayout) : String := l.name ++ "Service"

def serviceInstance (l : ArtifactLayout) : String := l.camel ++ "Service"

def fetchMethod (l : ArtifactLayout) : String := "fetch" ++ l.name ++ "Data"

def storeHook (l : ArtifactLayout) : String := "use" ++ l.name ++ "Store"

def componentDir (l : ArtifactLayout) : String := "components/" ++ l.tier.label ++ "/" ++ l.name

/-- The path of a file in the directory of the component. An empty name leaves the
separator at the end of the directory. -/
def inComponentDir (l : ArtifactLayout) (file : String) : String :=
  l.componentDir ++ (if l.name.isEmpty then "" else "/") ++ file

/-- The test of the file at `target` stands in a directory beside it. -/
def testBeside (target extension : String) : String :=
  let segments := Segment.ofPath target.toList
  String.ofList (Segment.joinAll (Segment.parent segments)) ++ "/__tests__/" ++
    String.ofList (Segment.stem segments) ++ ".test" ++ extension

/-- The tests of components and hooks hold markup. -/
def testExtension : ArtifactKind → String
  | .component | .hook | .test => ".tsx"
  | .types | .service | .store => ".ts"

def componentPath (l : ArtifactLayout) : String := l.inComponentDir (l.name ++ ".tsx")

def pathFor (l : ArtifactLayout) : ArtifactKind → String
  | .component => l.componentPath
  | .types => l.inComponentDir (l.name ++ ".types.ts")
  | .hook => "hooks/" ++ l.hookName ++ ".ts"
  | .service => "services/" ++ l.serviceInstance ++ ".ts"
  | .store => "stores/" ++ l.camel ++ "Store.ts"
  | .test => testBeside l.componentPath ".tsx"

def testPathFor (l : ArtifactLayout) (kind : ArtifactKind) : String :=
  testBeside (l.pathFor kind) (testExtension kind)

/-- The specifier under which the artifact of one kind imports that of another. -/
def importPath (l : ArtifactLayout) (source target : ArtifactKind) : String :=
  .ofList (Segment.importPath (Segment.ofPath (l.pathFor source).toList)
    (Segment.ofPath (l.pathFor target).toList))

end ArtifactLayout

end Recast
