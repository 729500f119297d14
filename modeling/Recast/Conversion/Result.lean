import Recast.Conversion.Draft
import Recast.Conversion.Persist

/-!
# Results of a conversion

What was written, what was noticed, and what the tools said. A draft, the fate of
each of its files and the runs of the tools determine it.
-/

namespace Recast

structure ConversionResult where
  name : String
  /-- The files that were written, in the order in which they were generated. -/
  files : List GeneratedFile := []
  diagnostics : Diagnostics
  applied : List AppliedPass := []
  complexity : ComplexityClass
  outcome? : Option Outcome := none
  elapsedMillis : Nat := 0
  deriving Repr

namespace ConversionResult

def success (r : ConversionResult) : Bool := !r.diagnostics.hasErrors

def fileCount (r : ConversionResult) : Nat := r.files.length

def lineCount (r : ConversionResult) : Nat := r.files.foldr (fun f n => f.lineCount + n) 0

def testFiles (r : ConversionResult) : List GeneratedFile := r.files.filter (·.isTest)

/-- A failed run of the tools is an error of the conversion. -/
def withOutcome (r : ConversionResult) (o : Outcome) : ConversionResult :=
  let failure := "Toolchain run failed with " ++ toString o.errors.length ++ " errors"
  { r with
    outcome? := some o
    diagnostics :=
      if o.success then r.diagnostics else r.diagnostics.record .buildError failure }

end ConversionResult

namespace Draft

/-- The result where nothing is written. -/
def abandoned (d : Draft) : ConversionResult :=
  { name := d.name, diagnostics := d.diagnostics, applied := d.applied,
    complexity := d.complexity }

/-- The result after the files are written. -/
def persisted (d : Draft) (writes : List (GeneratedFile × WriteResult)) : ConversionResult :=
  let report := PersistReport.ofWrites writes
  { d.abandoned with
    files := report.written
    diagnostics := d.diagnostics.extend report.diagnostics }

/-- The result after the tools ran, if they do. -/
def finish (d : Draft) (c : Config) (writes : List (GeneratedFile × WriteResult))
    (runs : List ToolRun) : ConversionResult :=
  let r := d.persisted writes
  if c.runsToolchain then r.withOutcome (.ofRuns c.requiredCoverage runs) else r

end Draft

namespace Machine

variable {m : Type → Type} [Monad m]

/-- Writes what a draft holds and runs the enabled tools. -/
def carryOut (w : Machine m) (c : Config) (d : Draft) : m ConversionResult := do
  match d.files? with
  | none => return d.abandoned
  | some files =>
    let writes ← w.writeFiles c.outputRoot files
    let runs ← (Toolchain.ofConfig c).runSteps w.run (ToolStep.enabled c)
    return d.finish c writes runs

/-- Converts one component. -/
def convert (w : Machine m) (c : Config) (passes : List Pass) (source : String)
    (declared? : Option String) : m (Except Fault ConversionResult) := do
  let start ← w.now
  match Draft.ofSource c passes source declared? with
  | .error e => return .error e
  | .ok d =>
    let r ← w.carryOut c d
    return .ok { r with elapsedMillis := (← w.now) - start }

end Machine

end Recast
