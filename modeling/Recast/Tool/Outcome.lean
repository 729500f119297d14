import Recast.Tool.Command
import Recast.Tool.Report

/-!
# Outcomes of tool runs

The tests run first, then the build, each if it is enabled and whatever became of
the other. The outcome is a failure if a command did not end, or ended with
another code than zero, or if the coverage that the tests report is too low.
-/

namespace Recast

/-- Why a command has no output. -/
inductive RunError
  | launchFailed (command reason : String)
  | timedOut (command : String) (secs : Nat)
  deriving DecidableEq, Repr

def RunError.message : RunError → String
  | launchFailed command reason => "Failed to launch `" ++ command ++ "`: " ++ reason
  | timedOut command secs => "`" ++ command ++ "` timed out after " ++ toString secs ++ "s"

/-- A command that ended by a signal has no exit code. -/
structure RunOutput where
  exitCode? : Option Int
  output : String
  elapsedMillis : Nat := 0
  deriving DecidableEq, Repr

namespace RunOutput

def succeeded (o : RunOutput) : Bool := o.exitCode? == some 0

def exitLabel (o : RunOutput) : String :=
  match o.exitCode? with
  | some code => "exit code " ++ toString code
  | none => "no exit code (terminated by signal)"

end RunOutput

abbrev RunResult := Except RunError RunOutput

inductive ToolStep
  | test
  | build
  deriving DecidableEq, Repr

namespace ToolStep

def command (t : Toolchain) : ToolStep → Command
  | test => t.test
  | build => t.build

/-- The enabled steps in the order in which they run. -/
def enabled (c : Config) : List ToolStep :=
  (if c.runTests then [test] else []) ++ (if c.runBuild then [build] else [])

end ToolStep

structure ToolRun where
  step : ToolStep
  command : Command
  result : RunResult

structure ToolMetrics where
  testMillis : Nat := 0
  buildMillis : Nat := 0
  totalBytes : UInt64 := 0
  chunks : List Chunk := []
  coverage? : Option Float := none
  deriving Repr

structure Outcome where
  success : Bool := true
  errors : List String := []
  warnings : List String := []
  metrics : ToolMetrics := {}
  deriving Repr

namespace Outcome

def fail (o : Outcome) (error : String) : Outcome :=
  { o with success := false, errors := o.errors ++ [error] }

def addTime (o : Outcome) (step : ToolStep) (millis : Nat) : Outcome :=
  match step with
  | .test => { o with metrics.testMillis := o.metrics.testMillis + millis }
  | .build => { o with metrics.buildMillis := o.metrics.buildMillis + millis }

def addReport (o : Outcome) (r : ToolReport) : Outcome :=
  { o with warnings := o.warnings ++ r.warnings,
           metrics.chunks := o.metrics.chunks ++ r.chunks }

/-- The errors that the command reported. A failure without any is one itself. -/
def addExit (o : Outcome) (c : Command) (out : RunOutput) (r : ToolReport) : Outcome :=
  if out.succeeded then { o with errors := o.errors ++ r.errors }
  else if r.errors.isEmpty then o.fail ("`" ++ c.display ++ "` failed with " ++ out.exitLabel)
  else { o with success := false, errors := o.errors ++ r.errors }

def lowCoverage (coverage threshold : Float) : String :=
  "Coverage " ++ Decimal.fixed 2 coverage ++ "% is below the " ++ Decimal.fixed 0 threshold ++
    "% threshold"

def addCoverage (o : Outcome) (threshold coverage : Float) : Outcome :=
  let o := { o with metrics.coverage? := some coverage }
  if coverage < threshold then o.fail (lowCoverage coverage threshold) else o

/-- Only the tests report coverage. -/
def addRun (threshold : Float) (o : Outcome) (run : ToolRun) : Outcome :=
  match run.result with
  | .error e => o.fail e.message
  | .ok out =>
    let r := ToolReport.read out.output.toList
    let o := (((o.addTime run.step out.elapsedMillis).addReport r).addExit run.command out r)
    match run.step, r.coverage? with
    | .test, some coverage => o.addCoverage threshold coverage
    | _, _ => o

/-- The sum of the sizes as a word. -/
def withTotal (o : Outcome) : Outcome :=
  { o with metrics.totalBytes := o.metrics.chunks.foldl (fun n c => n + c.bytes) 0 }

def ofRuns (threshold : Float) (runs : List ToolRun) : Outcome :=
  (runs.foldl (addRun threshold) {}).withTotal

end Outcome

/-- Runs the enabled steps in order. -/
def Toolchain.runSteps {m : Type → Type} [Monad m] (t : Toolchain) (run : Command → m RunResult)
    (steps : List ToolStep) : m (List ToolRun) :=
  steps.mapM fun step => do
    let command := step.command t
    return ⟨step, command, ← run command⟩

end Recast
