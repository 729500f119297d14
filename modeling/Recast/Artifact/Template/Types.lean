import Recast.Artifact.Template.Basic

/-!
# Types

The types module of a component: its props, its state, and the data it fetches.
-/

namespace Recast.Template

def stateLine (s : StateBinding) : String := s.name ++ ": " ++ s.type ++ ";"

def renderTypes (c : RenderContext) : String :=
  let f := c.facts
  let b : CodeBuilder := {}
  let b := b.when (!(reactTypesOf f).isEmpty) fun b =>
    (b.line (importTypes (reactTypesOf f) "react")).blank
  let b := b.when (!f.props.isEmpty) fun b =>
    (b.block ("export interface " ++ c.layout.propsType ++ " \x7b") "\x7d"
      (·.lineEach (f.props.map propLine))).blank
  let b := b.when (!f.state.isEmpty) fun b =>
    (b.block ("export interface " ++ c.layout.stateType ++ " \x7b") "\x7d"
      (·.lineEach (f.state.map stateLine))).blank
  let b := b.when c.declaresData (·.line ("export type " ++ c.layout.dataType ++ " = unknown;"))
  b.build

def types : Template where
  kind := .types
  applies f config :=
    config.generateTypes && (!f.props.isEmpty || !f.state.isEmpty || f.features.remoteData)
  render c := .ok (renderTypes c)

end Recast.Template
