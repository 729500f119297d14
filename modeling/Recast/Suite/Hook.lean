import Recast.Suite.Sample

/-!
# Suite of a data hook

Loading, data, errors, the query key, and a refetch that stays the same.
-/

namespace Recast.HookSuite

/-- What the hook gets its data from, and so what a scenario mocks. -/
inductive Source
  | service (inst method : String)
  | request

namespace Source

def mocked : Source → String
  | service inst method => "vi.mocked(" ++ inst ++ "." ++ method ++ ")"
  | request => "vi.mocked(fetch)"

def pending (s : Source) : String := s.mocked ++ ".mockReturnValue(new Promise(() => \x7b\x7d));"

def resolves (s : Source) (value : String) : String :=
  match s with
  | service _ _ => s.mocked ++ ".mockResolvedValue(" ++ value ++ ");"
  | request => s.mocked ++ ".mockResolvedValue(\x7b ok: true, json: async () => " ++ value ++
      " \x7d as Response);"

def rejects (s : Source) (message : String) : String :=
  s.mocked ++ ".mockRejectedValue(new Error('" ++ message ++ "'));"

def ofContext (c : SuiteContext) : Source :=
  if c.plan.service then service c.layout.serviceInstance c.layout.fetchMethod else request

end Source

def wrapper : String :=
  "const createWrapper = () => \x7b\n" ++
    "  const client = new QueryClient(\x7b defaultOptions: \x7b queries: \x7b retry: false \x7d \x7d \x7d);\n" ++
    "  return (\x7b children \x7d: \x7b children: ReactNode \x7d) => (\n" ++
    "    <QueryClientProvider client=\x7bclient\x7d>\x7bchildren\x7d</QueryClientProvider>\n" ++
    "  );\n\x7d;"

def renderHook (hook results : String) : String :=
  "const \x7b " ++ results ++ " \x7d = renderHook(() => " ++ hook ++ "(), \x7b wrapper: createWrapper() \x7d);"

def scenarios (c : SuiteContext) (source : Source) : List Scenario :=
  let render := renderHook c.layout.hookName "result"
  [.ofBlocks "starts in the loading state" .loading
      [source.pending, render, "expect(result.current.isLoading).toBe(true);"],
    Scenario.async (.ofBlocks "returns the loaded data" .data
      [source.resolves "[\x7b id: 1 \x7d]", render,
        "await waitFor(() => expect(result.current.isLoading).toBe(false));",
        "expect(result.current.data).toEqual([\x7b id: 1 \x7d]);",
        "expect(result.current.error).toBeNull();"]),
    Scenario.async (.ofBlocks "exposes request errors" .error
      [source.rejects "Network down", render,
        "await waitFor(() => expect(result.current.error).toBeTruthy());",
        "expect(result.current.error?.message).toBe('Network down');"]),
    .ofBlocks "uses a stable query key" .shape
      ["expect(" ++ c.layout.queryKey ++ ").toEqual(['" ++ c.layout.kebab ++ "']);"],
    .ofBlocks "keeps refetch stable across renders" .rerender
      [source.resolves "[]", renderHook c.layout.hookName "result, rerender",
        "const first = result.current.refetch;", "rerender();",
        "expect(result.current.refetch).toBe(first);"]]

def imports (c : SuiteContext) : List String :=
  ["import '@testing-library/jest-dom/vitest';", "import type \x7b ReactNode \x7d from 'react';",
    "import \x7b QueryClient, QueryClientProvider \x7d from '@tanstack/react-query';",
    "import \x7b renderHook, waitFor \x7d from '@testing-library/react';",
    c.importNames [c.layout.hookName, c.layout.queryKey] .hook]

def build (c : SuiteContext) : TestSuite :=
  let l := c.layout
  let suite := TestSuite.addImports { name := l.hookName, target := .hook } (imports c)
  let tests := scenarios c (.ofContext c)
  if c.plan.service then
    { suite.addImport (c.importNames [l.serviceInstance] .service) with
      preamble := ["vi.mock('" ++ c.importPath .service ++ "', () => (\x7b " ++ l.serviceInstance ++
        ": \x7b " ++ l.fetchMethod ++ ": vi.fn() \x7d \x7d));", wrapper]
      setup := ["vi.clearAllMocks();"], tests }
  else
    { suite with
      preamble := [wrapper]
      setup := ["vi.stubGlobal('fetch', vi.fn());"]
      teardown := ["vi.unstubAllGlobals();"], tests }

end Recast.HookSuite
