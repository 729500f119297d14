import Recast.Config.Basic

/-!
# Commands

A command names a program and its arguments, the directory it runs in and how
long it may run. A toolchain says which command tests a project and which builds
it.
-/

namespace Recast

structure Command where
  program : String
  args : List String
  workingDir : String := "."
  timeoutMillis : Nat := 300000
  deriving DecidableEq, Repr

namespace Command

/-- The program and its arguments. An empty list is no command. -/
def ofArgv? : List String → Option Command
  | [] => none
  | program :: args => some { program, args }

def argv (c : Command) : List String := c.program :: c.args

def display (c : Command) : String := " ".intercalate c.argv

def timeoutSecs (c : Command) : Nat := c.timeoutMillis / 1000

theorem ofArgv?_eq_none_iff {argv : List String} : ofArgv? argv = none ↔ argv = [] := by
  cases argv <;> simp [ofArgv?]

theorem argv_of_ofArgv? {argv : List String} {c : Command} (h : ofArgv? argv = some c) :
    c.argv = argv := by
  cases argv with
  | nil => simp [ofArgv?] at h
  | cons p as => simp only [ofArgv?, Option.some.injEq] at h; simp [← h, Command.argv]

end Command

structure Toolchain where
  test : Command
  build : Command
  deriving DecidableEq, Repr

namespace Toolchain

def name : String := "vite"

def standardTest : Command := { program := "npx", args := ["vitest", "run", "--coverage"] }

def standardBuild : Command := { program := "npx", args := ["vite", "build"] }

/-- The command that the options name, or the standard one, run in the project. -/
def commandOf (c : Config) (argv? : Option (List String)) (standard : Command) : Command :=
  { (argv?.bind Command.ofArgv?).getD standard with
    workingDir := c.projectRoot, timeoutMillis := 1000 * c.buildTimeoutSecs }

def ofConfig (c : Config) : Toolchain :=
  ⟨commandOf c c.testCommand? standardTest, commandOf c c.buildCommand? standardBuild⟩

end Toolchain

end Recast
