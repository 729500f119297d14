import Recast.Artifact.ImportSet
import Recast.Artifact.Modernize
import Recast.Text.Statement
import Recast.Artifact.Template.Basic
import Recast.Pattern.Component

/-!
# Component

The component as a typed function. A class is rebuilt from its parts: state becomes
hooks, lifecycle methods become effects, handlers become arrow functions. With a
data hook, the effects that fetched go away and the state they filled is derived
from the query.
-/

namespace Recast.Template

inductive UnitKind
  /-- The state hook of the named binding. -/
  | state (name : String)
  | effect
  | other
  deriving DecidableEq, Repr

/-- A statement at the top level of the component body. -/
structure BodyUnit where
  kind : UnitKind
  code : String
  deriving DecidableEq, Repr

namespace BodyUnit

def isState (u : BodyUnit) : Bool :=
  match u.kind with
  | .state _ => true
  | _ => false

def declares (u : BodyUnit) (name : String) : Bool := u.kind == .state name

def kindOf (statement : String) : UnitKind :=
  let text := statement.toList
  let head := (Text.dropPrefix? "React.".toList text).getD text
  let byHead :=
    if Text.startsWith head "useEffect".toList || Text.startsWith head "useLayoutEffect".toList
    then .effect else .other
  match Pattern.Component.stateHook.find? text with
  | some m => if m.start = 0 then .state (.ofList (m.groupText text 1)) else byHead
  | none => byHead

def annotatedTypes : List String := ["boolean", "number", "string"]

/-- The type argument of a state hook, where the type is simple enough. -/
def typeArgument (s : StateBinding) : String :=
  if annotatedTypes.contains s.type then "<" ++ s.type ++ ">" else ""

def stateDeclaration (s : StateBinding) : String :=
  "const [" ++ s.name ++ ", " ++ s.setter ++ "] = useState" ++ typeArgument s ++ "(" ++
    Str.trim s.initial ++ ");"

/-- Adds the type argument to a state hook without one. -/
def annotate (f : Facts) (statement name : String) : String :=
  match f.state.find? (·.name == name) with
  | none => statement
  | some s =>
    if (typeArgument s).isEmpty then statement
    else Str.replaceFirst "useState(" ("useState" ++ typeArgument s ++ "(") statement

def statements (code : String) : List String := (Statements.read code.toList).map .ofList

def ofFunction (f : Facts) : List BodyUnit :=
  match f.statements? with
  | none => []
  | some body => (statements body).map fun s =>
    match kindOf s with
    | .state name => ⟨.state name, annotate f s name⟩
    | kind => ⟨kind, s⟩

/-- The bodies of a lifecycle method that are not blank. -/
def lifecycleBodies (f : Facts) (kind : EffectKind) : List String :=
  (f.effects.filter (·.kind == kind)).filterMap fun e => e.body?.filter (!Str.isBlank ·)

def effectUnit (b : CodeBuilder) : BodyUnit := ⟨.effect, Str.trimEnd b.build⟩

/-- One effect for mounting and unmounting. -/
def mountEffect? (mount unmount : List String) : Option BodyUnit :=
  if mount.isEmpty && unmount.isEmpty then none
  else
    let b := mount.foldl CodeBuilder.lines (CodeBuilder.opening {} "useEffect(() => \x7b")
    let b := b.when (!unmount.isEmpty) fun b =>
      b.block "return () => \x7b" "\x7d;" fun b => unmount.foldl CodeBuilder.lines b
    some (effectUnit (b.closing "\x7d, []);"))

def updateEffect (body : String) : BodyUnit :=
  effectUnit (CodeBuilder.block {} "useEffect(() => \x7b" "\x7d);" (·.lines body))

def ofClass (f : Facts) : List BodyUnit :=
  f.state.map (fun s => ⟨.state s.name, stateDeclaration s⟩) ++
    (mountEffect? (lifecycleBodies f .mount) (lifecycleBodies f .unmount)).toList ++
    (lifecycleBodies f .update).map updateEffect ++
    f.handlers.map (fun h => ⟨.other, h.source⟩) ++
    ((f.statements?.map statements).getD []).map fun s => ⟨.other, s⟩

/-- The units of the body in their modern form. A unit of which nothing is left is
dropped. -/
def all (f : Facts) : List BodyUnit :=
  let units := if f.isClass then ofClass f else ofFunction f
  (units.map fun u => { u with code := Str.trim (Modernize.code f u.code) }).filter
    (!·.code.isEmpty)

def joinCode (us : List BodyUnit) : String := String.intercalate "\n" (us.map (·.code))

end BodyUnit

/-- A state binding that is read off the query. -/
structure Derived where
  name : String
  declaration : String
  deriving DecidableEq, Repr

namespace Derived

def dataExpression (s : StateBinding) : String :=
  let initial := Str.trim s.initial
  let value :=
    if initial.isEmpty || initial == "undefined" then "query.data"
    else "query.data ?? " ++ initial
  if s.type == "unknown" then value else "(" ++ value ++ ") as " ++ s.type

/-- What the query gives for a binding; its data is given once. -/
def expression? (dataTaken : Bool) (s : StateBinding) : Option (String × Bool) :=
  let lowered := Str.lowercase s.name
  if s.type == "boolean" && ["loading", "fetching", "pending"].any (Str.contains lowered) then
    some ("query.isLoading", dataTaken)
  else if Str.contains lowered "err" then some ("query.error", dataTaken)
  else if dataTaken then none
  else some (dataExpression s, true)

structure Derivation where
  units : List BodyUnit
  derived : List Derived
  dataTaken : Bool

/-- The binding is written by the removed effects and nowhere else. -/
def onlyFetched (removedCode markup : String) (units : List BodyUnit) (s : StateBinding) : Bool :=
  Str.hasWord removedCode s.setter && !Str.hasWord markup s.setter &&
    !(units.filter (!·.declares s.name)).any fun u => Str.hasWord u.code s.setter

def step (removedCode markup : String) (d : Derivation) (s : StateBinding) : Derivation :=
  if !onlyFetched removedCode markup d.units s then d
  else
    match expression? d.dataTaken s with
    | none => d
    | some (e, taken) =>
      ⟨d.units.filter (!·.declares s.name),
        d.derived ++ [⟨s.name, "const " ++ s.name ++ " = " ++ e ++ ";"⟩], taken⟩

def fetches (u : BodyUnit) : Bool :=
  u.kind == .effect && Pattern.Component.remoteDataUse.isIn u.code.toList

/-- Removes the effects that fetch and derives the state that only they wrote. -/
def replaceFetching (f : Facts) (markup : String) (units : List BodyUnit) :
    List BodyUnit × List Derived :=
  let removed := units.filter fetches
  let kept := units.filter (!fetches ·)
  let d := f.state.foldl (step (BodyUnit.joinCode removed) markup) ⟨kept, [], false⟩
  (d.units, d.derived)

end Derived

def tierClasses : Tier → String
  | .leaf => "inline-flex items-center gap-2"
  | .composite => "flex flex-col gap-4 rounded-lg border p-4"
  | .assembly => "min-h-screen flex flex-col gap-6 p-6"

/-- The markup of a component that shows none. -/
def placeholderMarkup (c : RenderContext) : String :=
  let header := "<div data-testid=\"" ++ c.layout.kebab ++ "\" className=\"" ++
    tierClasses c.layout.tier ++ "\">"
  let b := CodeBuilder.block {} header "</div>" fun b =>
    (b.line c.layout.name).when (c.facts.props.any (·.name == "children"))
      (·.line "\x7bchildren\x7d")
  Str.trimEnd b.build

def markupOf (c : RenderContext) : String :=
  match c.facts.markup? with
  | some markup => Modernize.code c.facts markup
  | none => placeholderMarkup c

def parameter (p : PropSpec) : String :=
  match p.default? with
  | some d => p.name ++ " = " ++ Str.trim d
  | none => p.name

def maxSignatureWidth : Nat := 80

/-- The parameters of the component; the props object itself is kept where the body
still names it. -/
def parameters (f : Facts) (body : String) : List String :=
  f.props.map parameter ++
    match f.propsAlias? with
    | some object => if Str.hasWord body object then ["..." ++ object] else []
    | none => []

/-- The lines before the last of the signature, and the last. -/
def signature (c : RenderContext) (body : String) : List String × String :=
  let name := c.layout.name
  if c.facts.props.isEmpty then ([], "const " ++ name ++ " = () => \x7b")
  else
    let params := parameters c.facts body
    let single := "const " ++ name ++ " = (\x7b " ++ String.intercalate ", " params ++ " \x7d: " ++
      c.layout.propsType ++ ") => \x7b"
    if single.utf8ByteSize ≤ maxSignatureWidth then ([], single)
    else
      (("const " ++ name ++ " = (\x7b") :: params.map ("  " ++ · ++ ","),
        "\x7d: " ++ c.layout.propsType ++ ") => \x7b")

/-- The parts of the component body. -/
structure ComponentBody where
  markup : String
  units : List BodyUnit
  derived : List Derived
  storeNames : List String
  usesQuery : Bool

namespace ComponentBody

def ofContext (c : RenderContext) : ComponentBody :=
  let f := c.facts
  let usesQuery := c.plan.hook && f.features.remoteData
  let markup := markupOf c
  let all := BodyUnit.all f
  let (units, derived) := if usesQuery then Derived.replaceFetching f markup all else (all, [])
  let inStore := f.state.filter fun s => !derived.any (·.name == s.name)
  { markup, derived, usesQuery
    units := if c.plan.store then units.filter (!·.isState) else units
    storeNames := if c.plan.store then inStore.flatMap fun s => [s.name, s.setter] else [] }

def needsNavigate (body : ComponentBody) : Bool :=
  let code := BodyUnit.joinCode body.units
  (Str.contains code "navigate(" || Str.contains body.markup "navigate(") &&
    !Str.hasWord code "useNavigate"

/-- Writes the units, with a blank line between them except between state hooks. -/
def writeUnits : Bool → List BodyUnit → CodeBuilder → CodeBuilder
  | _, [], b => b
  | afterState, u :: us, b =>
    let b := if u.isState && afterState then b else b.blank
    writeUnits u.isState us (b.lines u.code)

def writeQueryStates (b : CodeBuilder) : CodeBuilder :=
  let b := b.blank.block "if (query.isLoading) \x7b" "\x7d"
    (·.line "return <div role=\"status\">Loading...</div>;")
  b.blank.block "if (query.error) \x7b" "\x7d"
    (·.line "return <div role=\"alert\">\x7bquery.error.message\x7d</div>;")

def build (c : RenderContext) (body : ComponentBody) : String :=
  let b : CodeBuilder := {}
  let b := b.when body.needsNavigate (·.line "const navigate = useNavigate();")
  let b := b.when body.usesQuery (·.line ("const query = " ++ c.layout.hookName ++ "();"))
  let b := b.when (!body.storeNames.isEmpty) (·.line ("const \x7b " ++
    String.intercalate ", " body.storeNames ++ " \x7d = " ++ c.layout.storeHook ++ "();"))
  let b := b.lineEach (body.derived.map (·.declaration))
  let b := writeUnits false body.units b
  let b := b.when body.usesQuery writeQueryStates
  (b.blank.block "return (" ");" (·.lines body.markup)).build

end ComponentBody

def componentFunction (c : RenderContext) (bodyCode : String) : String :=
  let (before, last) := signature c bodyCode
  (((CodeBuilder.lineEach {} before).opening last).lines bodyCode |>.closing "\x7d;").build

/-- The types that the signature needs. -/
def addPropTypes (c : RenderContext) (s : ImportSet) : ImportSet :=
  if c.facts.props.isEmpty then s
  else if c.plan.types then s.addType (c.importPath .component .types) c.layout.propsType
  else (reactTypesOf c.facts).foldl (·.addType "react" ·) s

def componentImports (c : RenderContext) (body : ComponentBody) (functionCode : String) :
    ImportSet :=
  let s := ImportSet.ofFacts c.facts (!Str.hasWord functionCode "axios")
  let s := if body.needsNavigate then s.addNamed "react-router-dom" "useNavigate" else s
  let s := if body.usesQuery then s.addNamed (c.importPath .component .hook) c.layout.hookName
    else s
  let s := if c.plan.store then s.addNamed (c.importPath .component .store) c.layout.storeHook
    else s
  addPropTypes c s

def renderComponent (c : RenderContext) : String :=
  let body := ComponentBody.ofContext c
  let functionCode := componentFunction c (body.build c)
  let imports := componentImports c body functionCode
  let b := CodeBuilder.lineEach {} ((reactImport? functionCode).toList ++ imports.render)
  let b := (b.blank.lineEach imports.assetConstants).blank
  let b := b.when (!c.facts.props.isEmpty && !c.plan.types) fun b =>
    (b.block ("interface " ++ c.layout.propsType ++ " \x7b") "\x7d"
      (·.lineEach (c.facts.props.map propLine))).blank
  ((b.lines functionCode).blank.line ("export default " ++ c.layout.name ++ ";")).build

def component : Template where
  kind := .component
  applies _ _ := true
  render c := .ok (renderComponent c)

end Recast.Template
