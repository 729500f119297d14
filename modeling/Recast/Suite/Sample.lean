import Recast.Suite.Basic

/-!
# Sample values

Literals that the scenarios pass for props and state. A test of a component can
use a mock for a callback, a test of types only needs a value that has the type.
-/

namespace Recast

inductive SampleSite
  | component
  | typeCheck
  deriving DecidableEq, Repr

namespace SampleSite

def callback : SampleSite → String
  | component => "vi.fn()"
  | typeCheck => "() => \x7b\x7d"

def element : SampleSite → String
  | component => "<span />"
  | typeCheck => "createElement('span')"

/-- A literal of a type for the binding `name`. -/
def value (site : SampleSite) (type name : String) : String :=
  if type == "boolean" then "true"
  else if type == "number" then "1"
  else if type == "() => void" then site.callback
  else if type == "ReactNode" then "'content'"
  else if type == "ReactElement" then site.element
  else if type == "Date" then "new Date(0)"
  else if type == "symbol" then "Symbol('" ++ name ++ "')"
  else if Text.endsWith type.toList "[]".toList then "[]"
  else if Str.startsWith type "Record<" then "\x7b\x7d"
  else "'" ++ name ++ " value'"

end SampleSite

/-- A literal to update the state with. -/
def StateBinding.updated (s : StateBinding) : String :=
  if s.type == "boolean" then if Str.trim s.initial == "true" then "false" else "true"
  else if s.type == "number" then "42"
  else if Text.endsWith s.type.toList "[]".toList then "[\x7b id: 1 \x7d]"
  else if Str.startsWith s.type "Record<" then "\x7b key: 'value' \x7d"
  else "'updated'"

end Recast
