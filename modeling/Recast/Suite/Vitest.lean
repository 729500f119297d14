import Recast.Artifact.CodeBuilder
import Recast.Suite.Basic

/-!
# Written suites

A suite is written as one test module. Its first line imports the globals of the
test framework that the module uses.
-/

namespace Recast.TestSuite

def globals : List String :=
  ["describe", "it", "expect", "expectTypeOf", "vi", "beforeEach", "afterEach"]

def header (t : Scenario) : String :=
  let async := if t.isAsync then "async " else ""
  match t.each? with
  | some e => "it.each(" ++ e.table ++ ")('" ++ Str.title t.name ++ "', " ++ async ++ "(" ++
      e.param ++ ") => \x7b"
  | none => "it('" ++ Str.title t.name ++ "', " ++ async ++ "() => \x7b"

/-- Code that runs around every scenario, if there is any. -/
def writeAround (b : CodeBuilder) (opening : String) (ls : List String) : CodeBuilder :=
  b.when (!ls.isEmpty) fun b => (b.block opening "\x7d);" (ls.foldl CodeBuilder.lines ·)).blank

def writeScenario (b : CodeBuilder) (t : Scenario) : CodeBuilder :=
  (b.block (header t) "\x7d);" (·.lineEach t.body)).blank

def suiteCode (s : TestSuite) : String :=
  let b := CodeBuilder.block {} ("describe('" ++ Str.title s.name ++ "', () => \x7b") "\x7d);" fun b =>
    let b := writeAround b "beforeEach(() => \x7b" s.setup
    let b := writeAround b "afterEach(() => \x7b" s.teardown
    s.tests.foldl writeScenario b
  b.build

def usedGlobals (s : TestSuite) : List String :=
  let used := String.intercalate "\n\n" s.preamble ++ "\n" ++ s.suiteCode
  globals.filter (Str.hasWord used)

def code (s : TestSuite) : String :=
  let b := CodeBuilder.line {} (Template.importNames s.usedGlobals "vitest")
  let b := (b.lineEach s.imports).blank
  let b := s.preamble.foldl (fun b block => (b.lines block).blank) b
  (b.lines s.suiteCode).build

/-- The test module, unless the suite has no scenario. -/
def write (s : TestSuite) : Except SuiteError String :=
  if s.tests.isEmpty then .error (.noScenarios s.name) else .ok s.code

end Recast.TestSuite
