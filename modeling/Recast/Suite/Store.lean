import Recast.Suite.Sample

/-!
# Suite of a store

The initial state, an update of each binding, the reset, and setters that stay the
same.
-/

namespace Recast.StoreSuite

def expectInitial (subject : String) (s : StateBinding) : String :=
  "expect(" ++ subject ++ "." ++ s.name ++ ").toEqual(" ++ Template.initialValue s ++ ");"

def update (store : String) (s : StateBinding) : String :=
  store ++ ".getState()." ++ s.setter ++ "(" ++ s.updated ++ ");"

def initialScenario (store : String) (state : List StateBinding) : Scenario :=
  .ofBlocks "starts from the initial state" .render
    (("const state = " ++ store ++ ".getState();") :: state.map (expectInitial "state"))

/-- A flag is also updated by a function of its previous value. -/
def updateScenario (store : String) (s : StateBinding) : Scenario :=
  let current := "expect(" ++ store ++ ".getState()." ++ s.name ++ ").toEqual("
  let toggled :=
    if s.type == "boolean" then
      [store ++ ".getState()." ++ s.setter ++ "((prev) => !prev);", current ++ "!" ++ s.updated ++
        ");"]
    else []
  .ofBlocks ("updates " ++ s.name) .state
    ([update store s, current ++ s.updated ++ ");"] ++ toggled)

def resetScenario (store : String) (state : List StateBinding) : Scenario :=
  .ofBlocks "resets to the initial state" .rerender
    (state.map (update store) ++ [store ++ ".getState().reset();"] ++
      state.map (expectInitial (store ++ ".getState()")))

def stableScenario (store : String) (s : StateBinding) : Scenario :=
  .ofBlocks "keeps setters stable across updates" .shape
    ["const \x7b " ++ s.setter ++ " \x7d = " ++ store ++ ".getState();",
      s.setter ++ "(" ++ s.updated ++ ");",
      "expect(" ++ store ++ ".getState()." ++ s.setter ++ ").toBe(" ++ s.setter ++ ");"]

def build (c : SuiteContext) : Except SuiteError TestSuite :=
  let store := c.layout.storeHook
  let state := c.facts.state
  match state with
  | [] => .error (.noState c.layout.name)
  | first :: _ => .ok
    { name := store
      target := .store
      imports := [c.importNames [store] .store]
      setup := [store ++ ".getState().reset();"]
      tests := [initialScenario store state] ++ state.map (updateScenario store) ++
        [resetScenario store state, stableScenario store first] }

end Recast.StoreSuite
