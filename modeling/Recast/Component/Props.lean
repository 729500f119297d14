import Recast.Component.Entry
import Recast.Component.ValueType
import Recast.Pattern.Component
import Recast.Text.Word

/-!
# Props

Props are collected in the order in which the source first names them: parameters,
destructuring, member access, prop types and default props. A prop is listed once
and keeps the first default found for it.
-/

namespace Recast

/-- A prop with the number of times its own declaration names it. -/
structure FoundProp where
  name : List Char
  default? : Option (List Char)
  hits : Nat
  deriving DecidableEq, Repr

namespace FoundProp

open Text Pattern.Component

def add (props : List FoundProp) (p : FoundProp) : List FoundProp :=
  if props.any (·.name == p.name) then
    props.map fun q =>
      if q.name == p.name then ⟨q.name, q.default?.or p.default?, max q.hits p.hits⟩ else q
  else props ++ [p]

def addAll (props found : List FoundProp) : List FoundProp := found.foldl add props

def ofEntries (hits : Nat) (es : List Entry) : List FoundProp :=
  es.map fun e => ⟨e.key, e.value?, hits⟩

/-- The name under which the first parameter holds all props, and the props it
takes out of them. -/
def ofParams (params : List Char) :
    Except Fault (Option (List Char) × List FoundProp) := do
  match (splitTopLevel ',' params).head?.map trim with
  | none => return (none, [])
  | some param =>
    if param.head? == some '{' then
      match enclosed? param with
      | none => return (none, [])
      | some (inside, _) => return (none, ofEntries 1 (← Entry.all inside))
    else
      let object := trim (param.takeWhile fun c => c != ':' && c != '=')
      return (if isIdentifier object then some object else none, [])

def accessTo (object : List Char) : Pattern :=
  if object == "props".toList then propsAccess else aliasAccess object

def destructuringOf (object : List Char) : Pattern :=
  if object == "props".toList then propsDestructuring else aliasDestructuring object

/-- Props taken out of the props object or reached through it. -/
def throughAlias (body object : List Char) : Except Fault (List FoundProp) := do
  let taken ← ((destructuringOf object).matchesOf body).mapM fun m =>
    return ofEntries 1 (← Entry.all (m.groupText body 1))
  let reached := ((accessTo object).matchesOf body).map fun m => ⟨m.groupText body 1, none, 0⟩
  return taken.flatten ++ reached

end FoundProp

/-- A prop with its declared type. -/
structure DeclaredProp where
  name : List Char
  type : String
  required : Bool
  deriving DecidableEq, Repr

namespace DeclaredProp

open Text Pattern.Component

/-- The entries of the blocks that the pattern finds and that belong to the
component: those inside a class, and those assigned to its name. -/
def blockEntries (p : Pattern) (text component : List Char) : List (List Char) :=
  (p.matchesOf text).flatMap fun m =>
    if (m.groupText? text 1).any (· != component) then []
    else
      match enclosed? (text.drop (m.stop - 1)) with
      | none => []
      | some (inside, _) => splitTopLevel ',' inside

def ofEntry? (entry : List Char) : Option DeclaredProp :=
  (propTypeEntry.find? entry).map fun m =>
    ⟨m.groupText entry 1, ValueType.ofPropType (String.ofList (m.groupText entry 2)),
      contains entry ".isRequired".toList⟩

end DeclaredProp

/-- Props that a router hands to the components it wraps. -/
def routerProps : List (List Char) := ["history", "location", "match"].map (·.toList)

structure PropTable where
  props : List PropSpec
  hits : List Nat

namespace PropTable

open Pattern.Component

/-- The type of a prop: the declared one, or the one of its default, or the one its
name suggests. -/
def typeOf (declared? : Option DeclaredProp) (p : FoundProp) : String :=
  match declared?, p.default? with
  | some d, _ => d.type
  | none, some e =>
    if ValueType.ofLiteral e != "unknown" then ValueType.ofLiteral e else ValueType.ofName p.name
  | none, none => ValueType.ofName p.name

def specOf (hasTypes : Bool) (declared : List DeclaredProp) (p : FoundProp) : PropSpec :=
  let declared? := declared.find? (·.name == p.name)
  { name := String.ofList p.name
    type := typeOf declared? p
    required :=
      match declared? with
      | some d => d.required
      | none => !hasTypes && p.default?.isNone
    default? := p.default?.map String.ofList }

/-- Adds the props of the prop types and the default props, drops those a router
hands in unless they are declared, and settles types and requiredness. -/
def complete (text : List Char) (component : List Char) (navigation : Bool)
    (found : List FoundProp) : Except Fault PropTable := do
  let typeEntries := DeclaredProp.blockEntries propTypesBlock text component
  let declared := typeEntries.filterMap DeclaredProp.ofEntry?
  let props := FoundProp.addAll found (declared.map fun d => ⟨d.name, none, 0⟩)
  let defaults ← (DeclaredProp.blockEntries defaultPropsBlock text component).mapM Entry.all
  let props := FoundProp.addAll props (FoundProp.ofEntries 0 defaults.flatten)
  let props :=
    if navigation then
      props.filter fun p => !routerProps.contains p.name || declared.any (·.name == p.name)
    else props
  return ⟨props.map (specOf (!typeEntries.isEmpty) declared), props.map (·.hits)⟩

end PropTable

end Recast
