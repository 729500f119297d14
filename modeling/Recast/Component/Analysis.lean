import Recast.Component.Declaration
import Recast.Component.Effects
import Recast.Component.Handlers
import Recast.Component.Imports
import Recast.Component.Markup
import Recast.Component.Usage

/-!
# Analysis of a component

Reads the facts about a component off its source. The reading is heuristic: what
cannot be found is left out and reported, and the only fault is an entry whose
value would start inside a character.
-/

namespace Recast.Facts

open Text Pattern.Component

def unknownName : String := "UnknownComponent"

def nameOf (declared : Option (List Char)) (declaration? : Option Declaration)
    (exported? : Option (List Char)) : String × NameSource :=
  match declared, declaration?, exported? with
  | some n, _, _ => (String.ofList n, .declared)
  | none, some d, _ => (String.ofList d.name, .declaration)
  | none, none, some n => (String.ofList n, .exported)
  | none, none, none => (unknownName, .fallback)

def featuresOf (text : List Char) : Features :=
  ⟨navigationUse.isIn text, mediaUse.isIn text, animationUse.isIn text, remoteDataUse.isIn text⟩

/-- Inserts a text in rising order of code points, unless it is there. -/
def insertToken (t : String) : List String → List String
  | [] => [t]
  | u :: us => if t == u then u :: us else if t < u then t :: u :: us else u :: insertToken t us

def styleTokensOf (text : List Char) : List String :=
  let values := (classNameAttribute.matchesOf text).filterMap fun m =>
    (m.groupText? text 1).or ((m.groupText? text 2).or (m.groupText? text 3))
  ((values.flatMap blankSeparated).map String.ofList).foldl (fun ts t => insertToken t ts) []

def endpointsOf (text : List Char) : List String :=
  ((requestCall.matchesOf text).map fun m => String.ofList (m.groupText text 1)).foldl
    (fun urls u => if urls.contains u then urls else urls ++ [u]) []

/-- The part of a text that belongs to a function component. -/
structure Scope where
  span : List Char
  params? : Option (List Char)
  body? : Option Body

def Scope.ofText (text : List Char) : Scope := ⟨text, none, none⟩

def Scope.of? (text : List Char) (d : Declaration) : Option Scope :=
  (Callable.read? (text.drop d.resume)).map fun c =>
    ⟨(⟨d.start, text.length - c.rest.length⟩ : Span).text text, some c.params, some c.body⟩

def Scope.bodyText (s : Scope) : List Char :=
  match s.body? with
  | some (.block b) => b
  | _ => s.span

def Scope.rendering (s : Scope) : Rendering :=
  match s.body? with
  | some (.block b) => .ofBody b
  | some (.expression e) => ⟨Rendering.markupOf? e, none⟩
  | none => ⟨none, none⟩

def withRendering (f : Facts) (r : Rendering) : Facts :=
  { f with markup? := r.markup?.map String.ofList
           statements? := r.statements?.map String.ofList }

def withProps (f : Facts) (text : List Char) (found : List FoundProp) :
    Except Fault (Facts × List Nat) := do
  let table ← PropTable.complete text f.name.toList f.features.navigation found
  return ({ f with props := table.props }, table.hits)

def ofFunction (text : List Char) (scope : Scope) (f : Facts) : Except Fault Facts := do
  let (object?, taken) ←
    match scope.params? with
    | none => pure (none, [])
    | some params => FoundProp.ofParams params
  let body := scope.bodyText
  let through ← FoundProp.throughAlias body (object?.getD "props".toList)
  let f := { f with kind := .functional
                    propsAlias? := object?.map String.ofList
                    effects := Effect.ofHooks body }
  let (f, hits) ←
    (f.withRendering scope.rendering).withProps text
      (FoundProp.addAll (FoundProp.addAll [] taken) through)
  return Usage.report scope.span hits { f with state := StateBinding.ofHooks body }

def hookInClass (classBody : List Char) (f : Facts) : Facts :=
  match anyHook.find? classBody with
  | none => f
  | some m =>
    let hook := String.ofList (m.groupText classBody 1)
    f.withDiagnostic .analysisError s!"hook '{hook}' used inside class component {f.name}"

def renderOf (classBody : List Char) : Rendering :=
  match renderMethod.find? classBody with
  | none => ⟨none, none⟩
  | some m =>
    match enclosed? (classBody.drop (m.stop - 1)) with
    | none => ⟨none, none⟩
    | some (inside, _) => .ofBody inside

def ofClass (text : List Char) (d : Declaration) (f : Facts) : Except Fault Facts := do
  let f := { f with kind := .statefulClass }
  match indexOf? (text.drop d.resume) ['{'] with
  | none => return f
  | some i =>
    let (classBody, rest) := Callable.enclosedOrRest (text.drop (d.resume + i))
    let span := (⟨d.start, text.length - rest.length⟩ : Span).text text
    let found ← FoundProp.throughAlias classBody "props".toList
    let state ← StateBinding.ofClass classBody
    let f := { hookInClass classBody f with
                effects := Effect.ofClass classBody, handlers := Handler.all classBody }
    let (f, hits) ←
      (f.withRendering (renderOf classBody)).withProps text (FoundProp.addAll [] found)
    return Usage.report span hits { f with state }

def ofDeclaration (text : List Char) (d? : Option Declaration) (f : Facts) :
    Except Fault Facts :=
  match d? with
  | some d =>
    if d.kind == .classBody then ofClass text d f
    else ofFunction text ((Scope.of? text d).getD (Scope.ofText text)) f
  | none => ofFunction text (Scope.ofText text) f

def warnings (text : List Char) (f : Facts) : Facts :=
  let f :=
    if f.nameSource == .exported then
      f.withDiagnostic .analysisWarning
        s!"component name '{f.name}' taken from an export; no declaration found, confidence is low"
    else f
  if isBalanced text then f
  else f.withDiagnostic .analysisWarning
    "source has unbalanced delimiters; extraction may be incomplete"

/-- The facts about the component in the source, under the declared name if there is
one. -/
def analyze (source : String) (declared? : Option String) : Except Fault Facts := do
  let text := blankComments source.toList
  let declared := (declared?.map fun n => trim n.toList).filter (!·.isEmpty)
  let declaration? := Declaration.find? text declared
  let exported? := Declaration.exported? text
  let (name, nameSource) := nameOf declared declaration? exported?
  let f := { bare name with nameSource }
  if isBlankText text || (declaration?.isNone && exported?.isNone) then
    return f.withDiagnostic .analysisError "no component declaration found"
  let f := { warnings text f with
              imports := ImportBinding.all text
              features := featuresOf text
              styleTokens := styleTokensOf text
              endpoints := endpointsOf text }
  let f ← ofDeclaration text declaration? f
  if f.markup?.isNone then
    return f.withDiagnostic .analysisWarning
      "no render markup found; a placeholder will be generated"
  return f

end Recast.Facts
