import Recast.Config.Basic
import Recast.Toml.Document

/-!
# Options from a settings file

A file changes the options that it names. Other names are ignored, and an option
with a value of the wrong type makes the file unreadable. A whole number may
stand for a float.
-/

namespace Recast.Config

open Toml

def boolean? : Toml → Option Bool
  | .boolean b => some b
  | _ => none

def string? : Toml → Option String
  | .string s => some s
  | _ => none

/-- A number that is no whole one is taken as it is, a whole one if it fits a word. -/
def float? : Toml → Option Float
  | .float x => finiteFloat? x
  | .integer n =>
    if -(Decimal.twoTo 63 : Int) ≤ n && n < Decimal.twoTo 64 then
      some (Decimal.Numeral.finite (n < 0) n.natAbs 0).toFloat
    else none
  | _ => none

def word? : Toml → Option Nat
  | .integer n => if 0 ≤ n && n < Decimal.twoTo 64 then some n.toNat else none
  | _ => none

def strings? : Toml → Option (List String)
  | .array _ items => items.mapM string?
  | _ => none

/-- The value of an option, or the default where the file does not name it. -/
def option (es : Entries) (key : String) (read? : Toml → Option α) (default : α) : Option α :=
  match lookup key es with
  | none => some default
  | some v => read? v

def ofEntries (es : Entries) : Option Config := do
  let d : Config := {}
  return { generateTypes := ← option es "generate_types" boolean? d.generateTypes
           generateHooks := ← option es "generate_hooks" boolean? d.generateHooks
           generateServices := ← option es "generate_services" boolean? d.generateServices
           generateStore := ← option es "generate_state_container" boolean? d.generateStore
           generateTests := ← option es "generate_tests" boolean? d.generateTests
           optimize := ← option es "apply_optimizations" boolean? d.optimize
           runTests := ← option es "run_tests" boolean? d.runTests
           runBuild := ← option es "run_build" boolean? d.runBuild
           outputRoot := ← option es "output_root" string? d.outputRoot
           projectRoot := ← option es "project_root" string? d.projectRoot
           coverageThreshold := ← option es "test_coverage_threshold" float? d.coverageThreshold
           buildTimeoutSecs := ← option es "build_timeout_secs" word? d.buildTimeoutSecs
           testCommand? :=
            ← option es "test_command" (fun v => (strings? v).map some) d.testCommand?
           buildCommand? :=
            ← option es "build_command" (fun v => (strings? v).map some) d.buildCommand? }

/-- The options of a file. -/
def ofText? (text : String) : Option Config := do
  let es ← Toml.read? text.toList
  if entriesSound es then ofEntries es else none

end Recast.Config
