import Recast.Artifact.Template.Component
import Recast.Artifact.Template.Hook
import Recast.Artifact.Template.Service
import Recast.Artifact.Template.Store
import Recast.Artifact.Template.Types
import Recast.Text.Visible

/-!
# Synthesis

Runs the templates that apply to a component, in order. Two templates must not
write the same path, and the name of the component must be usable as a name.
-/

namespace Recast

def SynthesisError.message : SynthesisError → String
  | missingInput what => "Missing template input: " ++ what
  | invalidName name => "Invalid component name: " ++ Str.visible name
  | duplicatePath path => "Duplicate output path: " ++ path

namespace Template

def builtIn : List Template := [component, types, hook, service, store]

def builtInFor? (kind : ArtifactKind) : Option Template := builtIn.find? (·.kind == kind)

end Template

structure Synthesizer where
  config : Config := {}
  templates : List Template := Template.builtIn

namespace Synthesizer

/-- The further template renders after the others. -/
def withTemplate (s : Synthesizer) (t : Template) : Synthesizer :=
  { s with templates := s.templates ++ [t] }

def applying (s : Synthesizer) (f : Facts) : List Template :=
  s.templates.filter fun t => t.applies f s.config

def plan (s : Synthesizer) (f : Facts) : ArtifactPlan :=
  (s.applying f).foldl (fun p t => p.add t.kind) {}

/-- Only the component and its types belong to a tier. -/
def tierOf (l : ArtifactLayout) : ArtifactKind → Option Tier
  | .component | .types => some l.tier
  | _ => none

/-- Renders the templates, given the paths that are taken. -/
def renderAll (c : RenderContext) (taken : List String) :
    List Template → Except SynthesisError (List GeneratedFile)
  | [] => .ok []
  | t :: ts => do
    let path := c.layout.pathFor t.kind
    if taken.contains path then .error (.duplicatePath path)
    else
      let content ← t.render c
      let rest ← renderAll c (path :: taken) ts
      return ⟨path, content, t.kind, tierOf c.layout t.kind⟩ :: rest

def generate (s : Synthesizer) (f : Facts) : Except SynthesisError (List GeneratedFile) :=
  let layout := ArtifactLayout.ofName f.name f.tier
  if !Text.isIdentifier layout.name.toList then .error (.invalidName f.name)
  else renderAll ⟨f, layout, s.plan f⟩ [] (s.applying f)

end Synthesizer

end Recast
