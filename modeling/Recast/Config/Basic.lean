/-!
# Options of a conversion

What is generated, where it goes, and which tools run on it afterwards. Every
option has a default.
-/

namespace Recast

structure Config where
  generateTypes : Bool := true
  generateHooks : Bool := true
  generateServices : Bool := true
  generateStore : Bool := true
  generateTests : Bool := true
  optimize : Bool := true
  runTests : Bool := false
  runBuild : Bool := false
  /-- The directory that generated paths are relative to. -/
  outputRoot : String := "src"
  /-- The directory in which the tools run. -/
  projectRoot : String := "."
  coverageThreshold : Float := 80.0
  buildTimeoutSecs : Nat := 300
  testCommand? : Option (List String) := none
  buildCommand? : Option (List String) := none

/-- Whether a tool runs after the files are written. -/
def Config.runsToolchain (c : Config) : Bool := c.runTests || c.runBuild

/-- A percentage kept between 0 and 100. What is no number stays so. -/
def clampPercent (x : Float) : Float := if x < 0.0 then 0.0 else if 100.0 < x then 100.0 else x

/-- The coverage that the tests must reach, in percent. What is no number asks for
nothing. -/
def Config.requiredCoverage (c : Config) : Float :=
  if c.coverageThreshold.isNaN then 0.0 else clampPercent c.coverageThreshold

end Recast
