import Recast.Optimize.Initializer
import Recast.Optimize.Media
import Recast.Optimize.ReactImport
import Recast.Optimize.ResponseCache

/-!
# The built-in passes

Five passes in a fixed order: the component is memoized, its handlers are kept
between renders, derived values are computed once, media load lazily, and a service
caches its answers.
-/

namespace Recast.Pass

open Text

def targetsKind (kind other : ArtifactKind) : Bool := kind == other

/-- A pass on lists of characters that cuts nothing. -/
def ofChars (name : String) (kind : ArtifactKind) (isApplicable : List Char → Bool)
    (transform : List Char → Except Fault (Except PassError (List Char))) : Pass where
  name := name
  targets := targetsKind kind
  isApplicable s := isApplicable s.toList
  transform s := return (← transform s.toList).map String.ofList

def memoizeName (content : List Char) : List Char :=
  match Pattern.Generated.defaultExportName.find? content with
  | none => content
  | some m => ReactImport.replaceMatch m
      ("export default memo(".toList ++ m.groupText content 1 ++ ");".toList) content

def memoizeComponent : Pass :=
  ofChars "memoize-component" .component
    (fun content => !contains content "memo(".toList &&
      Pattern.Generated.defaultExportName.isIn content)
    fun content => return .ok (ReactImport.ensure "memo".toList (memoizeName content))

/-- Wraps the selected initializers and imports the hook that wraps them. -/
def wrapInitializers (hook what : String) (select : List Char → List Initializer)
    (wrap : List Char → List Char) (content : List Char) :
    Except Fault (Except PassError (List Char)) := do
  let selected := select content
  let out ← Initializer.replaceAll wrap selected content
  if selected.isEmpty then return .error (.anchorNotFound what)
  else return .ok (ReactImport.ensure hook.toList out)

def stableCallbacks : Pass :=
  ofChars "stable-callbacks" .component (fun content => !(Initializer.handlers content).isEmpty)
    (wrapInitializers "useCallback" "inline handler" Initializer.handlers Initializer.callbackOf)

def memoizeDerivedValues : Pass :=
  ofChars "memoize-derived-values" .component
    (fun content => !(Initializer.derivations content).isEmpty)
    (wrapInitializers "useMemo" "derived value" Initializer.derivations Initializer.memoOf)

def lazyMedia : Pass :=
  ofChars "lazy-media" .component (fun content => !(Media.missingHints content).isEmpty)
    fun content => return .ok (Media.addHints content)

def responseCache : Pass :=
  ofChars "response-cache" .service ResponseCache.isApplicable
    fun content => return ResponseCache.transform content

def builtIn : List Pass :=
  [memoizeComponent, stableCallbacks, memoizeDerivedValues, lazyMedia, responseCache]

end Recast.Pass
