import Recast.Decimal.Grammar
import Recast.Text.Search

/-!
# Types of props and state

The type of a value is guessed from the literal that starts it, from its name, or
from its declared prop type. What is not obvious is `unknown`.
-/

namespace Recast.ValueType

open Text

def isNumber (expr : List Char) : Bool :=
  (Decimal.read? expr).isSome ||
    match expr with
    | '-' :: r => (Decimal.read? r).isSome
    | _ => false

/-- The type of a literal initializer. -/
def ofLiteral (expr : List Char) : String :=
  let e := trim expr
  if e == "true".toList || e == "false".toList then "boolean"
  else if e.isEmpty || e == "null".toList || e == "undefined".toList then "unknown"
  else if e.head?.any fun c => c == '\'' || c == '"' || c == '`' then "string"
  else if isNumber e then "number"
  else if e.head? == some '[' then "unknown[]"
  else if e.head? == some '{' then "Record<string, unknown>"
  else if startsWith e "new Date(".toList then "Date"
  else if startsWith e "() =>".toList && endsWith e "\x7b\x7d".toList then "() => void"
  else "unknown"

def hasPrefixWord (name word : List Char) : Bool :=
  (dropPrefix? word name).any fun rest => rest.head?.any Char.isUpper

/-- The type that the name of a prop suggests. -/
def ofName (name : List Char) : String :=
  if hasPrefixWord name "on".toList then "() => void"
  else if ["is", "has", "show", "can", "should"].any (hasPrefixWord name ·.toList) then "boolean"
  else if name == "children".toList then "ReactNode"
  else if name == "className".toList then "string"
  else "unknown"

/-- The type that a declared prop type stands for. -/
def ofPropType : String → String
  | "string" | "oneOf" => "string"
  | "number" => "number"
  | "bool" => "boolean"
  | "func" => "() => void"
  | "array" | "arrayOf" => "unknown[]"
  | "object" | "shape" | "objectOf" | "exact" => "Record<string, unknown>"
  | "node" => "ReactNode"
  | "element" => "ReactElement"
  | "symbol" => "symbol"
  | _ => "unknown"

end Recast.ValueType
