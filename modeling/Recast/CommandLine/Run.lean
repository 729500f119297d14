import Recast.CommandLine.Arguments
import Recast.CommandLine.Summary
import Recast.Config.Read

/-!
# Running the command line

A request reads its settings and its source, does its work and prints the result.
It exits with 1 where something went wrong, with 2 where the arguments are
misused, and with 101 where a source cannot be cut.
-/

namespace Recast.CommandLine

structure Printed where
  exitCode : Nat
  text : String := ""
  /-- What is wrong, for the stream of errors. -/
  complaint : String := ""
  deriving DecidableEq, Repr

def versionText : String := "porter 0.0.0-dev\n"

def failure (reason : String) : Printed :=
  { exitCode := 1, complaint := "Error: " ++ reason ++ "\n" }

def misused : Printed := { exitCode := 2, complaint := "error: invalid arguments\n" }

def broken : Printed :=
  { exitCode := 101, complaint := "error: an entry starts inside a character\n" }

/-- Why settings cannot be had. -/
inductive SettingsFault
  | unreadable (path : String) (cause : DiskFault)
  | malformed
  deriving DecidableEq, Repr

def SettingsFault.message : SettingsFault → String
  | unreadable path cause => "Failed to read config file " ++ path ++ ": " ++ cause.message
  | malformed => "Failed to parse config"

/-- Options of the command line win over those of the settings file. -/
def Request.apply (q : Request) (c : Config) : Config :=
  { c with outputRoot := q.output?.getD c.outputRoot
           runTests := c.runTests || q.runTests
           runBuild := c.runBuild || q.runBuild }

variable {m : Type → Type} [Monad m]

def loadSettings (w : Machine m) (path : String) : m (Except SettingsFault Config) := do
  match ← w.readText path with
  | .error e => return .error (.unreadable path e)
  | .ok text =>
    match Config.ofText? text with
    | some c => return .ok c
    | none => return .error .malformed

/-- A dash or no name at all reads the standard input. -/
def readSource (w : Machine m) (standardInput : m String) (input? : Option String) :
    m (Except DiskFault String) :=
  match input? with
  | none | some "-" => do return .ok (← standardInput)
  | some path => w.readText path

def unreadable (q : Request) (e : DiskFault) : String :=
  "Failed to read component source " ++ q.input?.getD "-" ++ ": " ++ e.message

def analyzeSource (q : Request) (source : String) : Printed :=
  match Facts.analyze source q.name? with
  | .error _ => broken
  | .ok f =>
    { exitCode := if f.diagnostics.hasErrors then 1 else 0
      text := if q.json then f.toJson.pretty ++ "\n" else printLines (factsLines f) }

def printResult (q : Request) (r : ConversionResult) : Printed where
  exitCode := if r.success then 0 else 1
  text := if q.json then r.report ++ "\n" else printLines (resultLines r)

def convertSource (w : Machine m) (q : Request) (c : Config) (source : String) : m Printed := do
  match ← w.convert (q.apply c) Pass.builtIn source q.name? with
  | .error _ => return broken
  | .ok r => return printResult q r

def analyze (w : Machine m) (standardInput : m String) (q : Request) : m Printed := do
  match ← readSource w standardInput q.input? with
  | .error e => return failure (unreadable q e)
  | .ok source => return analyzeSource q source

/-- The settings are read before the source. -/
def convert (w : Machine m) (standardInput : m String) (q : Request) : m Printed := do
  let settings ←
    match q.config? with
    | none => pure (.ok {})
    | some path => loadSettings w path
  match settings with
  | .error e => return failure e.message
  | .ok c =>
    match ← readSource w standardInput q.input? with
    | .error e => return failure (unreadable q e)
    | .ok source => convertSource w q c source

def run (w : Machine m) (standardInput : m String) (args : List String) : m Printed :=
  match Request.read args with
  | .error .version => return { exitCode := 0, text := versionText }
  | .error .help => return { exitCode := 0 }
  | .error .misuse => return misused
  | .ok q =>
    match q.action with
    | .analyze => analyze w standardInput q
    | .convert => convert w standardInput q

end Recast.CommandLine
