import Recast.Artifact.Template.Basic

/-!
# Store

A store that holds the state of the component, with a setter for each binding and
a reset to the initial values.
-/

namespace Recast.Template

/-- State moves to a store from this many bindings on. -/
def minStoreBindings : Nat := 3

/-- The initial value in the store. An expression of unknown type may depend on the
component, and the state then starts as null. -/
def initialValue (s : StateBinding) : String :=
  let e := Str.trim s.initial
  if s.type != "unknown" || e == "null" || e == "undefined" then e else "null"

def setterType (s : StateBinding) : String :=
  s.setter ++ ": (value: " ++ s.type ++ " | ((prev: " ++ s.type ++ ") => " ++ s.type ++
    ")) => void;"

def setterLines (s : StateBinding) : List String :=
  [s.setter ++ ": (value) =>",
    "  set((state) => (\x7b " ++ s.name ++ ": typeof value === 'function' ? (value as (prev: " ++
      s.type ++ ") => " ++ s.type ++ ")(state." ++ s.name ++ ") : value \x7d)),"]

def renderStore (c : RenderContext) : String :=
  let state := c.facts.state
  let valuesType := c.layout.name ++ "StoreValues"
  let stateType := c.layout.name ++ "StoreState"
  let b : CodeBuilder := {}
  let b := (b.line "import \x7b create \x7d from 'zustand';").blank
  let b := (b.block ("export type " ++ valuesType ++ " = \x7b") "\x7d;" (·.lineEach (state.map fun s =>
    s.name ++ ": " ++ s.type ++ ";"))).blank
  let b := (b.block ("export interface " ++ stateType ++ " extends " ++ valuesType ++ " \x7b") "\x7d"
    fun b => (b.lineEach (state.map setterType)).line "reset: () => void;").blank
  let b := (b.block ("const initialState: " ++ valuesType ++ " = \x7b") "\x7d;" fun b =>
    state.foldl (fun b s => b.lines (s.name ++ ": " ++ initialValue s ++ ",")) b).blank
  let b := b.block
    ("export const " ++ c.layout.storeHook ++ " = create<" ++ stateType ++ ">()((set) => (\x7b")
    "\x7d));" fun b =>
      ((b.line "...initialState,").lineEach (state.flatMap setterLines)).line
        "reset: () => set(initialState),"
  b.build

def store : Template where
  kind := .store
  applies f config := config.generateStore && minStoreBindings ≤ f.state.length
  render c :=
    if c.facts.state.isEmpty then
      .error (.missingInput ("store for " ++ c.layout.name ++ " needs at least one state binding"))
    else .ok (renderStore c)

end Recast.Template
