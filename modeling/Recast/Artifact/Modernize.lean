import Recast.Artifact.Style
import Recast.Component.Basic
import Recast.Pattern.Idiom
import Recast.Text.Split

/-!
# Modern code

Statements, handlers and markup of the component are carried over one idiom after
the other: reaching into the class instance or the props object goes away, history
calls become calls of `navigate`, environment variables and asset paths take the
form of the new build, and style classes are replaced.
-/

namespace Recast.Modernize

open Text Pattern Pattern.Idiom

/-- The setter of the state that an entry of a state update names. -/
def setterFor (state : List StateBinding) (key : List Char) : String :=
  match state.find? (·.name == String.ofList key) with
  | some s => s.setter
  | none => "set" ++ String.ofList (pascalCase key)

def setterCall? (state : List StateBinding) (entry : List Char) : Option String :=
  let entry := trim entry
  let (key, value) :=
    match cut? entry [':'] with
    | some (k, v) => (trim k, trim v)
    | none => (entry, entry)
  if isIdentifier key then some (setterFor state key ++ "(" ++ String.ofList value ++ ")") else none

/-- An update of several entries becomes a block of setter calls. -/
def setterCalls (state : List StateBinding) (entries : List Char) : String :=
  match (splitTopLevel ',' entries).filterMap (setterCall? state) with
  | [] => ""
  | [call] => call
  | calls => "\x7b " ++ String.intercalate "; " calls ++ "; \x7d"

def remove (p : Pattern) (code : List Char) : List Char := p.replaceAll (fun _ => []) code

def substitute (p : Pattern) (new : String) (code : List Char) : List Char :=
  p.replaceAll (fun _ => new.toList) code

/-- Reaching for a member of the props object under the name `object`. -/
def memberOf (object : String) : Pattern := wordEdge ++ lit object ++ lit "."

def stateUpdates (state : List StateBinding) (code : List Char) : List Char :=
  setStateObject.replaceAll (fun m => (setterCalls state (m.groupText code 1)).toList) code

def instanceMembers (f : Facts) (code : List Char) : List Char :=
  let code := remove historyDeclaration code
  let code := remove bindingDestructuring code
  let code := remove thisProps code
  let code := stateUpdates f.state code
  let code := remove thisMember code
  match f.propsAlias? with
  | some object => remove (memberOf object) code
  | none => code

def historyCalls (code : List Char) : List Char :=
  let code := substitute historyPush "navigate(" code
  let code := historyReplace.replaceAll (fun m =>
    "navigate(".toList ++ m.groupText code 1 ++ ", \x7b replace: true \x7d)".toList) code
  substitute historyBack "navigate(-1)" code

def environment (code : List Char) : List Char :=
  substitute environmentMode "import.meta.env.MODE"
    (substitute environmentVariable "import.meta.env.VITE_" code)

def assets (code : List Char) : List Char :=
  let code := assetRequire.replaceAll (fun m =>
    "'/assets/".toList ++ m.groupText code 1 ++ ['\'']) code
  assetString.replaceAll (fun m =>
    m.groupText code 1 ++ "/assets/".toList ++ m.groupText code 2 ++ m.groupText code 1) code

def classAttribute (code : List Char) (m : Match) : List Char :=
  match m.groupText? code 1, m.groupText? code 2 with
  | some double, _ => "className=\"".toList ++ Style.mapList double ++ ['"']
  | none, some single => "className='".toList ++ Style.mapList single ++ ['\'']
  | none, none => m.span.text code

def styleClasses (code : List Char) : List Char :=
  classNameValue.replaceAll (classAttribute code) code

def chars (f : Facts) (code : List Char) : List Char :=
  styleClasses (assets (environment (historyCalls (instanceMembers f code))))

/-- The code without the idioms of the older platform. -/
def code (f : Facts) (s : String) : String := .ofList (chars f s.toList)

end Recast.Modernize
