import Recast.Suite.Sample

/-!
# Suite of a component

Rendering, each prop, the states of its data, navigation, each state binding,
accessibility, viewports and rendering again.
-/

namespace Recast.ComponentSuite

def propsFixture (c : SuiteContext) (typed : Bool) : String :=
  let type := if typed then ": " ++ c.layout.propsType else ""
  "const defaultProps" ++ type ++ " = \x7b\n" ++
    String.join (c.facts.props.map fun p =>
      "  " ++ p.name ++ ": " ++ SampleSite.component.value p.type p.name ++ ",\n") ++ "\x7d;"

def propsParam (c : SuiteContext) (typed : Bool) : String :=
  if typed then "props: Partial<" ++ c.layout.propsType ++ "> = \x7b\x7d" else "props = \x7b\x7d"

/-- Functions that build the element under test and render it. -/
def renderHelpers (c : SuiteContext) (router typed : Bool) : String :=
  let name := c.layout.name
  let hasProps := !c.facts.props.isEmpty
  let param := if hasProps then propsParam c typed else ""
  let element := if hasProps then "<" ++ name ++ " \x7b...defaultProps\x7d \x7b...props\x7d />"
    else "<" ++ name ++ " />"
  let ui :=
    if router then "const ui = (" ++ param ++ ") => (\n  <MemoryRouter>\n    " ++ element ++
      "\n  </MemoryRouter>\n);"
    else "const ui = (" ++ param ++ ") => " ++ element ++ ";"
  let render :=
    if hasProps then "const renderComponent = (" ++ param ++ ") => render(ui(props));"
    else "const renderComponent = () => render(ui());"
  ui ++ "\n\n" ++ render

def queryMock (hook : String) : String :=
  "const mockQuery = (overrides = \x7b\x7d) =>\n  (\x7b\n    data: [],\n    isLoading: false,\n" ++
    "    error: null,\n    refetch: vi.fn(),\n    ...overrides,\n" ++
    "  \x7d) as unknown as ReturnType<typeof " ++ hook ++ ">;"

def navigateMock : String :=
  "vi.mock('react-router-dom', async (importOriginal) => (\x7b\n" ++
    "  ...(await importOriginal<typeof import('react-router-dom')>()),\n" ++
    "  useNavigate: () => mockNavigate,\n\x7d));"

def rendered : List String :=
  ["const \x7b container \x7d = renderComponent();", "expect(container.firstChild).toBeTruthy();"]

/-- The prop is shown as text. -/
def showsAsText (c : SuiteContext) (p : PropSpec) : Bool :=
  (p.type == "string" || p.type == "unknown") && Str.contains c.content (Str.braced p.name)

def propScenario (c : SuiteContext) (p : PropSpec) : Scenario :=
  let name := p.name
  if p.type == "() => void" then
    .ofBlocks ("accepts the " ++ name ++ " callback") .prop
      ["const " ++ name ++ " = vi.fn();", "renderComponent(\x7b " ++ name ++ " \x7d);",
        "expect(" ++ name ++ ").not.toHaveBeenCalled();"]
  else if showsAsText c p then
    .ofBlocks ("renders with the " ++ name ++ " prop") .prop
      ["renderComponent(\x7b " ++ name ++ ": 'custom " ++ name ++ "' \x7d);",
        "expect(screen.getAllByText(/custom " ++ name ++ "/).length).toBeGreaterThan(0);"]
  else
    .ofBlocks ("renders with the " ++ name ++ " prop") .prop
      ["const \x7b container \x7d = renderComponent(\x7b " ++ name ++ ": " ++
          SampleSite.component.value p.type name ++ " \x7d);",
        "expect(container.firstChild).toBeTruthy();"]

def queryScenarios (hook : String) : List Scenario :=
  let returns (value : String) : String :=
    "vi.mocked(" ++ hook ++ ").mockReturnValue(mockQuery(\x7b " ++ value ++ " \x7d));"
  [.ofBlocks "shows a loading indicator while data loads" .loading
      [returns "isLoading: true", "renderComponent();",
        "expect(screen.getByRole('status')).toBeInTheDocument();"],
    .ofBlocks "shows the error when loading fails" .error
      [returns "error: new Error('Request failed')", "renderComponent();",
        "expect(screen.getByRole('alert')).toHaveTextContent('Request failed');"],
    .ofBlocks "renders the loaded data" .data
      [returns "data: []", "renderComponent();",
        "expect(screen.queryByRole('status')).not.toBeInTheDocument();",
        "expect(screen.queryByRole('alert')).not.toBeInTheDocument();"]]

def requestScenario (callsFetch : Bool) : Scenario :=
  Scenario.async (.ofBlocks "requests data after mounting" .data
    (if callsFetch then
      ["renderComponent();", "await waitFor(() => expect(fetch).toHaveBeenCalled());"]
    else
      ["const \x7b container \x7d = renderComponent();",
        "await waitFor(() => expect(container.firstChild).toBeTruthy());"]))

def requestScenarios (callsFetch : Bool) : List Scenario :=
  [.ofBlocks "renders while the request is pending" .loading
      ("vi.mocked(fetch).mockReturnValue(new Promise(() => \x7b\x7d));" :: rendered),
    .ofBlocks "survives a failed request" .error
      ["vi.mocked(fetch).mockRejectedValue(new Error('Network down'));",
        "expect(() => renderComponent()).not.toThrow();"],
    requestScenario callsFetch]

/-- The component reads the state off the query. -/
def isDerived (c : SuiteContext) (name : String) : Bool :=
  Str.contains c.content ("const " ++ name ++ " = query.") ||
    Str.contains c.content ("const " ++ name ++ " = (query.")

def stateScenario (c : SuiteContext) (s : StateBinding) : Scenario :=
  if isDerived c s.name then
    .ofBlocks ("derives the " ++ s.name ++ " state from the data hook") .state
      ["renderComponent();", "expect(" ++ c.layout.hookName ++ ").toHaveBeenCalled();"]
  else if c.plan.store then
    .ofBlocks ("reads the " ++ s.name ++ " state from the store") .state
      ["renderComponent();", "expect(" ++ c.layout.storeHook ++ ".getState()." ++ s.name ++
        ").toEqual(" ++ Template.initialValue s ++ ");"]
  else .ofBlocks ("renders with the initial " ++ s.name ++ " state") .state rendered

def accessibilityScenario : Scenario :=
  .ofBlocks "gives images alt text and buttons an accessible name" .accessibility
    ["renderComponent();",
      "for (const image of screen.queryAllByRole('img')) \x7b\n  expect(image).toHaveAttribute('alt');\n\x7d",
      "for (const button of screen.queryAllByRole('button')) \x7b\n  expect(button).toHaveAccessibleName();\n\x7d"]

/-- A phone, a tablet and a desktop. -/
def viewportWidths : String := "[375, 768, 1280]"

def responsiveScenario : Scenario :=
  Scenario.forEach (.ofBlocks "renders at a %ipx wide viewport" .responsive
    (["Object.defineProperty(window, 'innerWidth', \x7b configurable: true, writable: true, value: width \x7d);",
      "window.dispatchEvent(new Event('resize'));"] ++ rendered)) viewportWidths "width"

def rerenderScenario : Scenario :=
  .ofBlocks "keeps its DOM when re-rendered with the same props" .rerender
    ["const \x7b container, rerender \x7d = renderComponent();", "const first = container.firstChild;",
      "rerender(ui());", "expect(container.firstChild).toBe(first);"]

structure Traits where
  usesQuery : Bool
  fetches : Bool
  mocksNavigate : Bool
  router : Bool
  typed : Bool

def traitsOf (c : SuiteContext) : Traits :=
  let usesQuery := c.usesQuery
  { usesQuery
    fetches := c.facts.features.remoteData && !usesQuery
    mocksNavigate := Str.hasWord c.content "useNavigate"
    router := c.facts.features.navigation || Str.contains c.content "'react-router-dom'"
    typed := c.plan.types && !c.facts.props.isEmpty }

def onlyIf (condition : Bool) (xs : List String) : List String := if condition then xs else []

def imports (c : SuiteContext) (t : Traits) : List String :=
  let library := if t.fetches then ["render", "screen", "waitFor"] else ["render", "screen"]
  ["import '@testing-library/jest-dom/vitest';",
      Template.importNames library "@testing-library/react"] ++
    onlyIf t.router ["import \x7b MemoryRouter \x7d from 'react-router-dom';"] ++
    ["import " ++ c.layout.name ++ " from '" ++ c.importPath .component ++ "';"] ++
    onlyIf t.typed [c.importTypes [c.layout.propsType] .types] ++
    onlyIf t.usesQuery [c.importNames [c.layout.hookName] .hook] ++
    onlyIf c.plan.store [c.importNames [c.layout.storeHook] .store]

def preamble (c : SuiteContext) (t : Traits) : List String :=
  onlyIf t.mocksNavigate ["const mockNavigate = vi.hoisted(() => vi.fn());", navigateMock] ++
    onlyIf t.usesQuery ["vi.mock('" ++ c.importPath .hook ++ "', () => (\x7b " ++ c.layout.hookName ++
      ": vi.fn() \x7d));", queryMock c.layout.hookName] ++
    onlyIf (!c.facts.props.isEmpty) [propsFixture c t.typed] ++
    [renderHelpers c t.router t.typed]

def setup (c : SuiteContext) (t : Traits) : List String :=
  onlyIf (t.mocksNavigate || t.usesQuery || t.fetches) ["vi.clearAllMocks();"] ++
    onlyIf t.usesQuery ["vi.mocked(" ++ c.layout.hookName ++ ").mockReturnValue(mockQuery());"] ++
    onlyIf t.fetches
      ["vi.stubGlobal('fetch', vi.fn().mockResolvedValue(\x7b ok: true, json: async () => [] \x7d));"] ++
    onlyIf c.plan.store [c.layout.storeHook ++ ".getState().reset();"]

def dataScenarios (c : SuiteContext) (t : Traits) : List Scenario :=
  if t.usesQuery then queryScenarios c.layout.hookName
  else if t.fetches then requestScenarios (Str.contains c.content "fetch(")
  else []

def navigationScenarios (t : Traits) : List Scenario :=
  if t.mocksNavigate then
    [.ofBlocks "does not navigate on first render" .navigation
      ["renderComponent();", "expect(mockNavigate).not.toHaveBeenCalled();"]]
  else if t.router then [.ofBlocks "renders inside a router" .navigation rendered]
  else []

def scenarios (c : SuiteContext) (t : Traits) : List Scenario :=
  [.ofBlocks "renders without crashing" .render rendered] ++ c.facts.props.map (propScenario c) ++
    dataScenarios c t ++ navigationScenarios t ++ c.facts.state.map (stateScenario c) ++
    [accessibilityScenario, responsiveScenario, rerenderScenario]

def build (c : SuiteContext) : TestSuite :=
  let t := traitsOf c
  { TestSuite.addImports { name := c.layout.name, target := .component } (imports c t) with
    preamble := preamble c t
    setup := setup c t
    teardown := onlyIf t.fetches ["vi.unstubAllGlobals();"]
    tests := scenarios c t }

end Recast.ComponentSuite
