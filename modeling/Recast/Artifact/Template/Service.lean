import Recast.Artifact.Template.Basic

/-!
# Service

A client for the endpoints of the component, with retries. The first endpoint is
the component's data; every further one gets a method named for its last segment.
-/

namespace Recast.Template

open Text

def maxRetries : Nat := 3

def retryDelayMs : Nat := 500

/-- The path of an endpoint. A full address loses its origin. -/
def endpointPath (endpoint : String) : String :=
  let path :=
    match cut? endpoint.toList "://".toList with
    | some (_, rest) => rest.dropWhile (· != '/')
    | none => endpoint.toList
  if path.head? == some '/' then .ofList path else .ofList ('/' :: path)

/-- The paths of the endpoints in order, each once. -/
def endpointPaths (f : Facts) : List String :=
  (f.endpoints.map endpointPath).foldl (fun ps p => if ps.contains p then ps else ps ++ [p]) []

/-- The path that the data of the component comes from. -/
def primaryPath (f : Facts) (l : ArtifactLayout) : String :=
  (endpointPaths f).headD ("/" ++ l.kebab)

def isLiteralSegment (s : List Char) : Bool :=
  !s.isEmpty && s.head? != some ':' && s.any Char.isAlpha

/-- The method for a path, from its last literal segment. -/
def methodFor? (path : String) : Option String := do
  let beforeQuery := path.toList.takeWhile (· != '?')
  let segment ← ((splitOn '/' beforeQuery).filter isLiteralSegment).getLast?
  let name := pascalCase segment
  if name.isEmpty then none else some ("fetch" ++ String.ofList name)

/-- The further methods with their paths. A name that is taken is left out. -/
def furtherMethods (taken : List String) : List String → List (String × String)
  | [] => []
  | path :: paths =>
    match methodFor? path with
    | some method =>
      if taken.contains method then furtherMethods taken paths
      else (method, path) :: furtherMethods (taken ++ [method]) paths
    | none => furtherMethods taken paths

def requestMethod (b : CodeBuilder) : CodeBuilder :=
  b.block "private async request<T>(path: string, init?: RequestInit): Promise<T> \x7b" "\x7d" fun b =>
    let b := b.line "let lastError: unknown;"
    let b := b.block "for (let attempt = 0; attempt <= MAX_RETRIES; attempt++) \x7b" "\x7d" fun b =>
      let b := b.opening "try \x7b"
      let b := b.block "const response = await fetch(`$\x7bthis.baseUrl\x7d$\x7bpath\x7d`, \x7b" "\x7d);"
        (·.lineEach ["...init,",
          "headers: \x7b 'Content-Type': 'application/json', ...init?.headers \x7d,"])
      let b := b.block "if (!response.ok) \x7b" "\x7d" (·.line
        "throw new Error(`Request to $\x7bpath\x7d failed with status $\x7bresponse.status\x7d`);")
      let b := b.line "return (await response.json()) as T;"
      let b := (b.branch "\x7d catch (error) \x7b").line "lastError = error;"
      let b := b.block "if (attempt < MAX_RETRIES) \x7b" "\x7d" (·.line
        "await new Promise((resolve) => setTimeout(resolve, RETRY_DELAY_MS * 2 ** attempt));")
      b.closing "\x7d"
    b.line "throw lastError;"

def requestLine (type path : String) : String :=
  "return this.request<" ++ type ++ ">('" ++ Str.quoted path ++ "');"

def serviceClass (c : RenderContext) (b : CodeBuilder) : CodeBuilder :=
  let l := c.layout
  let further := furtherMethods [l.fetchMethod] ((endpointPaths c.facts).drop 1)
  b.block ("export class " ++ l.serviceClass ++ " \x7b") "\x7d" fun b =>
    let b := (b.line "constructor(private readonly baseUrl: string = API_BASE_URL) \x7b\x7d").blank
    let b := (requestMethod b).blank
    let b := b.block (l.fetchMethod ++ "(): Promise<" ++ l.dataType ++ "> \x7b") "\x7d"
      (·.line (requestLine l.dataType (primaryPath c.facts l)))
    further.foldl (fun b (method, path) =>
      b.blank.block (method ++ "<T = unknown>(): Promise<T> \x7b") "\x7d" (·.line (requestLine "T" path))) b

def renderService (c : RenderContext) : String :=
  let l := c.layout
  let b : CodeBuilder := {}
  let b :=
    if c.plan.types && c.declaresData then
      b.line (importTypes [l.dataType] (c.importPath .service .types))
    else b.line ("export type " ++ l.dataType ++ " = unknown;")
  let b := b.blank.lineEach ["const API_BASE_URL = import.meta.env.VITE_API_URL ?? '';",
    "const MAX_RETRIES = " ++ toString maxRetries ++ ";",
    "const RETRY_DELAY_MS = " ++ toString retryDelayMs ++ ";"]
  let b := (serviceClass c b.blank).blank
  (b.line ("export const " ++ l.serviceInstance ++ " = new " ++ l.serviceClass ++ "();")).build

def service : Template where
  kind := .service
  applies f config := config.generateServices && f.features.remoteData
  render c := .ok (renderService c)

end Recast.Template
