import Recast.Artifact.CodeBuilder
import Recast.Artifact.Layout
import Recast.Component.Basic
import Recast.Config.Basic

/-!
# Templates

A template makes one kind of artifact. Whether it applies is settled for all
templates before any of them renders, so that they can refer to each other.
-/

namespace Recast

structure RenderContext where
  facts : Facts
  layout : ArtifactLayout
  plan : ArtifactPlan

structure Template where
  kind : ArtifactKind
  applies : Facts → Config → Bool
  render : RenderContext → Except SynthesisError String

namespace RenderContext

def importPath (c : RenderContext) (source target : ArtifactKind) : String :=
  c.layout.importPath source target

/-- Whether the types module declares the type of the fetched data. -/
def declaresData (c : RenderContext) : Bool := c.facts.features.remoteData || c.plan.hook

end RenderContext

namespace Template

/-- The line that imports names from a module. -/
def importNames (names : List String) (origin : String) : String :=
  "import " ++ Str.braced (" " ++ String.intercalate ", " names ++ " ") ++ " from '" ++ origin ++ "';"

def importTypes (names : List String) (origin : String) : String :=
  "import type " ++ Str.braced (" " ++ String.intercalate ", " names ++ " ") ++ " from '" ++
    origin ++ "';"

def reactNames : List String :=
  ["Fragment", "forwardRef", "memo", "useCallback", "useContext", "useEffect", "useLayoutEffect",
    "useMemo", "useReducer", "useRef", "useState"]

/-- The code uses the name by itself and not only as a member of the framework. -/
def usesReactName (code name : String) : Bool :=
  Str.occurrences code ("React." ++ name) < Str.countWord code name

/-- The import of the framework that the code needs. -/
def reactImport? (code : String) : Option String :=
  let names := reactNames.filter (usesReactName code)
  match Str.contains code "React.", names.isEmpty with
  | false, true => none
  | true, true => some "import React from 'react';"
  | false, false => some (importNames names "react")
  | true, false =>
    some ("import React, " ++ Str.braced (" " ++ String.intercalate ", " names ++ " ") ++
      " from 'react';")

def reactTypes : List String := ["ReactElement", "ReactNode"]

/-- The framework types that the props need. -/
def reactTypesOf (f : Facts) : List String :=
  reactTypes.filter fun t => f.props.any (·.type == t)

def propLine (p : PropSpec) : String :=
  p.name ++ (if p.required then "" else "?") ++ ": " ++ p.type ++ ";"

def openBrace : String := "\x7b"

def closeBrace : String := "\x7d"

end Template

end Recast
