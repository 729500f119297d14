import Recast.Suite.Sample

/-!
# Suite of a service

The request for the data, retries until one succeeds or none is left, failure of
the network, and the shared instance.
-/

namespace Recast.ServiceSuite

/-- The base address of the client under test. -/
def baseUrl : String := "http://api.test"

def jsonResponse : String :=
  "const jsonResponse = (body: unknown, status = 200) =>\n" ++
    "  (\x7b ok: status >= 200 && status < 300, status, json: async () => body \x7d) as Response;"

def answers (response : String) : String :=
  "vi.mocked(fetch).mockResolvedValue(" ++ response ++ ");"

def scenarios (c : SuiteContext) : List Scenario :=
  let l := c.layout
  let client := "const service = new " ++ l.serviceClass ++ "('" ++ baseUrl ++ "');"
  let call := "service." ++ l.fetchMethod ++ "()"
  let rejects (message : String) : List String :=
    [client, "const assertion = expect(" ++ call ++ ").rejects.toThrow('" ++ message ++ "');",
      "await vi.runAllTimersAsync();", "await assertion;"]
  [Scenario.async (.ofBlocks "fetches data from the primary endpoint" .data
      [answers "jsonResponse([\x7b id: 1 \x7d])", client,
        "await expect(" ++ call ++ ").resolves.toEqual([\x7b id: 1 \x7d]);",
        "expect(fetch).toHaveBeenCalledWith('" ++ baseUrl ++ Template.primaryPath c.facts l ++
          "', expect.objectContaining(\x7b headers: expect.any(Object) \x7d));"]),
    Scenario.async (.ofBlocks "retries failed requests before giving up" .retry
      (answers "jsonResponse(\x7b\x7d, 500)" :: rejects "500" ++
        ["expect(fetch).toHaveBeenCalledTimes(" ++ toString (Template.maxRetries + 1) ++ ");"])),
    Scenario.async (.ofBlocks "recovers when a retry succeeds" .retry
      ["vi.mocked(fetch)", "  .mockResolvedValueOnce(jsonResponse(\x7b\x7d, 503))",
        "  .mockResolvedValueOnce(jsonResponse(\x7b ok: true \x7d));", client,
        "const request = " ++ call ++ ";", "await vi.runAllTimersAsync();",
        "await expect(request).resolves.toEqual(\x7b ok: true \x7d);",
        "expect(fetch).toHaveBeenCalledTimes(2);"]),
    Scenario.async (.ofBlocks "rejects when the network is unavailable" .error
      ("vi.mocked(fetch).mockRejectedValue(new Error('offline'));" :: rejects "offline")),
    .ofBlocks "exports a shared instance" .shape
      ["expect(" ++ l.serviceInstance ++ ").toBeInstanceOf(" ++ l.serviceClass ++ ");"]]

def build (c : SuiteContext) : TestSuite where
  name := c.layout.serviceClass
  target := .service
  imports := [c.importNames [c.layout.serviceClass, c.layout.serviceInstance] .service]
  preamble := [jsonResponse]
  setup := ["vi.stubGlobal('fetch', vi.fn());", "vi.useFakeTimers();"]
  teardown := ["vi.useRealTimers();", "vi.unstubAllGlobals();"]
  tests := scenarios c

end Recast.ServiceSuite
