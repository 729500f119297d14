import Recast.Suite.Sample

/-!
# Suite of a types module

Objects that have the declared types, and the type of the fetched data.
-/

namespace Recast.TypesSuite

/-- An object of a type with a sample value for each entry. -/
def objectLiteral (binding type : String) (entries : List (String × String)) : String :=
  "const " ++ binding ++ ": " ++ type ++ " = \x7b\n" ++
    String.join (entries.map fun (name, inferred) =>
      "  " ++ name ++ ": " ++ SampleSite.typeCheck.value inferred name ++ ",\n") ++ "\x7d;"

def hasType (binding type : String) : String :=
  "expectTypeOf(" ++ binding ++ ").toEqualTypeOf<" ++ type ++ ">();"

def propEntries (props : List PropSpec) : List (String × String) :=
  props.map fun p => (p.name, p.type)

def propScenarios (c : SuiteContext) : List Scenario :=
  let props := c.facts.props
  let type := c.layout.propsType
  let literal (ps : List PropSpec) : List String :=
    [objectLiteral "props" type (propEntries ps), hasType "props" type]
  if props.isEmpty then []
  else
    .ofBlocks "accepts a complete props object" .prop (literal props) ::
      if props.any (!·.required) then
        [.ofBlocks "allows optional props to be omitted" .prop
          (literal (props.filter (·.required)))]
      else []

def stateScenarios (c : SuiteContext) : List Scenario :=
  if c.facts.state.isEmpty then []
  else
    [.ofBlocks "describes every state binding" .state
      [objectLiteral "state" c.layout.stateType (c.facts.state.map fun s => (s.name, s.type)),
        hasType "state" c.layout.stateType]]

def declaresData (c : SuiteContext) : Bool := c.facts.features.remoteData || c.plan.hook

def dataScenarios (c : SuiteContext) : List Scenario :=
  if declaresData c then
    [.ofBlocks "declares the remote data type" .data
      ["expectTypeOf<" ++ c.layout.dataType ++ ">().toBeUnknown();"]]
  else []

def declaredNames (c : SuiteContext) : List String :=
  (if c.facts.props.isEmpty then [] else [c.layout.propsType]) ++
    (if c.facts.state.isEmpty then [] else [c.layout.stateType]) ++
    if declaresData c then [c.layout.dataType] else []

def imports (c : SuiteContext) : List String :=
  (if c.facts.props.any (·.type == "ReactElement") then
    ["import \x7b createElement \x7d from 'react';"] else []) ++
  if (declaredNames c).isEmpty then [] else [c.importTypes (declaredNames c) .types]

def build (c : SuiteContext) : TestSuite where
  name := c.layout.name ++ " types"
  target := .types
  imports := imports c
  tests := propScenarios c ++ stateScenarios c ++ dataScenarios c

end Recast.TypesSuite
