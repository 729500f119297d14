import Recast.Artifact.Template.Basic

/-!
# Data hook

A hook that queries the data of the component, through the service if there is
one and by a request of its own otherwise.
-/

namespace Recast.Template

def staleTime : String := "5 * 60 * 1000"

def hookImports (c : RenderContext) (b : CodeBuilder) : CodeBuilder :=
  let l := c.layout
  let b := b.line "import \x7b useQuery \x7d from '@tanstack/react-query';"
  let b := b.when c.plan.service
    (·.line (importNames [l.serviceInstance] (c.importPath .hook .service)))
  if c.plan.types && c.declaresData then
    (b.line (importTypes [l.dataType] (c.importPath .hook .types))).blank
  else (b.blank.line ("export type " ++ l.dataType ++ " = unknown;")).blank

def queryFunction (c : RenderContext) (b : CodeBuilder) : CodeBuilder :=
  let l := c.layout
  if c.plan.service then
    b.line ("queryFn: () => " ++ l.serviceInstance ++ "." ++ l.fetchMethod ++ "(),")
  else
    b.block "queryFn: async () => \x7b" "\x7d," fun b =>
      let b := b.line ("const response = await fetch(`$\x7bimport.meta.env.VITE_API_URL ?? ''\x7d/" ++
        l.kebab ++ "`);")
      let b := b.block "if (!response.ok) \x7b" "\x7d"
        (·.line "throw new Error(`Request failed with status $\x7bresponse.status\x7d`);")
      b.line ("return (await response.json()) as " ++ l.dataType ++ ";")

def renderHook (c : RenderContext) : String :=
  let l := c.layout
  let b := hookImports c {}
  let b := (b.line ("export const " ++ l.queryKey ++ " = ['" ++ l.kebab ++ "'] as const;")).blank
  let b := b.block ("export function " ++ l.hookName ++ "() \x7b") "\x7d" fun b =>
    let b := b.block ("const query = useQuery<" ++ l.dataType ++ ", Error>(\x7b") "\x7d);" fun b =>
      (queryFunction c (b.line ("queryKey: " ++ l.queryKey ++ ","))).line
        ("staleTime: " ++ staleTime ++ ",")
    b.blank.block "return \x7b" "\x7d;" (·.lineEach ["data: query.data,",
      "isLoading: query.isLoading,", "error: query.error,", "refetch: query.refetch,"])
  b.build

def hook : Template where
  kind := .hook
  applies f config := config.generateHooks && f.complexityClass != .low
  render c := .ok (renderHook c)

end Recast.Template
