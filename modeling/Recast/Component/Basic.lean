import Recast.Component.Tier
import Recast.Diagnostic

/-!
# Facts about a component

What the source of one component says about it: its name and kind, what it
imports, its props, state, effects and handlers, the markup it renders. Every
later stage reads these facts and none changes them.
-/

namespace Recast

inductive ComponentKind
  | functional
  | statefulClass
  deriving DecidableEq, Repr

/-- How the component got its name. -/
inductive NameSource
  | declared
  | declaration
  | exported
  | fallback
  deriving DecidableEq, Repr

inductive BindingKind
  | default
  | named
  | wholeModule
  | sideEffect
  deriving DecidableEq, Repr

/-- The name is kept as written, also with a new local name after `as`. -/
structure ImportBinding where
  name : String
  origin : String
  kind : BindingKind
  deriving DecidableEq, Repr

structure PropSpec where
  name : String
  type : String
  required : Bool
  default? : Option String
  deriving DecidableEq, Repr

/-- State in a class has no setter of its own. -/
structure StateBinding where
  name : String
  setter? : Option String
  type : String
  initial : String
  deriving DecidableEq, Repr

/-- The declared setter, or the name with `set` before it. -/
def StateBinding.setter (s : StateBinding) : String :=
  s.setter?.getD ("set" ++ String.ofList (Text.pascalCase s.name.toList))

inductive EffectKind
  | effect
  | layoutEffect
  | memo
  | callback
  | mount
  | update
  | unmount
  deriving DecidableEq, Repr

structure Effect where
  kind : EffectKind
  dependencies : List String
  body? : Option String
  deriving DecidableEq, Repr

structure Features where
  navigation : Bool := false
  media : Bool := false
  animation : Bool := false
  remoteData : Bool := false
  deriving DecidableEq, Repr

/-- An event handler of a class, written as an arrow function. -/
structure Handler where
  name : String
  source : String
  deriving DecidableEq, Repr

inductive ComplexityClass
  | low
  | medium
  | high
  deriving DecidableEq, Repr

/-- A score that is not a number is high. -/
def ComplexityClass.ofScore (score : Float) : ComplexityClass :=
  if score < 5 then low else if score < 15 then medium else high

structure Facts where
  name : String
  nameSource : NameSource := .declared
  kind : ComponentKind := .functional
  tier : Tier
  imports : List ImportBinding := []
  props : List PropSpec := []
  /-- The parameter that holds all props, where they come as one object. -/
  propsAlias? : Option String := none
  state : List StateBinding := []
  effects : List Effect := []
  features : Features := {}
  /-- In rising order, each once. -/
  styleTokens : List String := []
  endpoints : List String := []
  handlers : List Handler := []
  markup? : Option String := none
  /-- The statements of the body, the last return excluded. -/
  statements? : Option String := none
  diagnostics : Diagnostics := {}
  deriving Repr

namespace Facts

/-- A functional component of which nothing but the name is known. -/
def bare (name : String) : Facts := { name, tier := Tier.resolve name }

def isClass (f : Facts) : Bool := f.kind == .statefulClass

/-- The complexity in halves: a prop counts one, a state binding two, an effect one
and a half, and each feature by its weight. -/
def complexityHalves (f : Facts) : Nat :=
  2 * f.props.length + 4 * f.state.length + 3 * f.effects.length +
    (if f.features.navigation then 4 else 0) + (if f.features.media then 2 else 0) +
    (if f.features.animation then 6 else 0) + (if f.features.remoteData then 8 else 0)

def complexity (f : Facts) : Float := Float.ofScientific (5 * f.complexityHalves) true 1

def complexityClass (f : Facts) : ComplexityClass := .ofScore f.complexity

def withDiagnostic (f : Facts) (kind : DiagnosticKind) (message : String) : Facts :=
  { f with diagnostics := f.diagnostics.record kind message }

end Facts

end Recast
