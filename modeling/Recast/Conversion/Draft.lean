import Recast.Artifact.Synthesis
import Recast.Component.Analysis
import Recast.Optimize.BuiltIn
import Recast.Suite.Synthesis

/-!
# Drafts

A draft is a conversion before any file is touched: the files that are to be
written, if the source could be read and every file generated, and what was
noticed on the way.
-/

namespace Recast

structure Draft where
  name : String
  complexity : ComplexityClass
  diagnostics : Diagnostics
  applied : List AppliedPass := []
  /-- Nothing is written where a stage failed. -/
  files? : Option (List GeneratedFile) := none
  deriving DecidableEq, Repr

namespace Draft

def record (d : Draft) (kind : DiagnosticKind) (message : String) : Draft :=
  { d with diagnostics := d.diagnostics.record kind message }

def ofFacts (f : Facts) : Draft := ⟨f.name, f.complexityClass, f.diagnostics, [], none⟩

/-- A component without markup gets a placeholder and a warning. -/
def noteMarkup (d : Draft) (f : Facts) : Draft :=
  if f.markup?.isSome then d
  else d.record .analysisWarning
    ("No render markup found in " ++ f.name ++ ", emitted a placeholder")

/-- The files improved by the passes. -/
def improve (d : Draft) (passes : List Pass) (files : List GeneratedFile) : Except Fault Draft := do
  let (files, report) ← Pass.optimize passes files
  return { d with
    diagnostics := d.diagnostics.extend report.diagnostics
    applied := report.applied
    files? := some files }

/-- The files with their tests, improved where the options ask for it. -/
def complete (c : Config) (passes : List Pass) (f : Facts) (d : Draft)
    (files : List GeneratedFile) : Except Fault Draft := do
  let tests := if c.generateTests then TestSuite.generate f files else .ok []
  match tests with
  | .error e => return d.record .generationError e.message
  | .ok tests =>
    if c.optimize then d.improve passes (files ++ tests)
    else return { d with files? := some (files ++ tests) }

def ofSource (c : Config) (passes : List Pass) (source : String) (declared? : Option String) :
    Except Fault Draft := do
  let f ← Facts.analyze source declared?
  let d := ofFacts f
  if f.diagnostics.hasErrors then return d
  match ({ config := c } : Synthesizer).generate f with
  | .error e => return d.record .generationError e.message
  | .ok files => complete c passes f (d.noteMarkup f) files

end Draft

end Recast
