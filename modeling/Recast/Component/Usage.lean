import Recast.Component.Basic
import Recast.Component.Props

/-!
# Unused names

A prop or a state binding that the component names no more often than its own
declaration does is reported. Blocks of prop types and default props are blanked
first, for naming a prop there does not use it.
-/

namespace Recast.Usage

open Text Pattern.Component

/-- Blanks the part of a text from `start` to the partner of the bracket at `open`. -/
def blankBlock (text : List Char) (start bracket : Nat) : Option (Nat × Nat) :=
  (partner? (text.drop bracket)).map fun n => (start, bracket + n + 1)

def staticBlocks (text : List Char) : List (Nat × Nat) :=
  [propTypesBlock, defaultPropsBlock].flatMap fun p =>
    (p.matchesOf text).filterMap fun m => blankBlock text m.start (m.stop - 1)

/-- The text with its prop types and default props blanked. -/
def withoutStaticBlocks (text : List Char) : List Char :=
  (staticBlocks text).foldl (fun out (a, b) =>
    out.take a ++ List.replicate (b - a) ' ' ++ out.drop b) text

def unusedProps (usage : List Char) (props : List PropSpec) (hits : List Nat) : List String :=
  ((props.zip hits).filter fun (p, h) => countWord usage p.name.toList ≤ h).map (·.1.name)

def unusedState (usage : List Char) (state : List StateBinding) : List String :=
  (state.filter fun s => countWord usage s.name.toList ≤ 1).map (·.name)

/-- The facts with a warning for each unused prop and state binding. -/
def report (span : List Char) (hits : List Nat) (f : Facts) : Facts :=
  let usage := withoutStaticBlocks span
  let f := (unusedProps usage f.props hits).foldl (fun f n =>
    f.withDiagnostic .analysisWarning s!"prop '{n}' is declared but never used") f
  (unusedState usage f.state).foldl (fun f n =>
    f.withDiagnostic .analysisWarning s!"state '{n}' is declared but never used") f

end Recast.Usage
