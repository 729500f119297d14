import Recast.Artifact.Kind
import Recast.Diagnostic
import Recast.Text.Bracket
import Recast.Text.Cut

/-!
# Passes

A pass is one small improvement of generated code. It says which artifacts it
understands and whether there is something left to do in a text. The optimizer
applies passes in order and skips those that fail or that would unbalance a
balanced text.
-/

namespace Recast

inductive PassError
  | anchorNotFound (what : String)
  | unbalanced (pass : String)
  deriving DecidableEq, Repr

def PassError.message : PassError → String
  | anchorNotFound what => "Anchor not found: " ++ what
  | unbalanced pass => "Output of " ++ pass ++ " is structurally unbalanced"

structure Pass where
  name : String
  targets : ArtifactKind → Bool
  isApplicable : String → Bool
  /-- The outer result fails where the pass would cut a character, the inner where it
  finds no place to work on. -/
  transform : String → Except Fault (Except PassError String)

structure AppliedPass where
  pass : String
  path : String
  deriving DecidableEq, Repr

structure OptimizationReport where
  applied : List AppliedPass := []
  diagnostics : Diagnostics := {}
  deriving DecidableEq, Repr

namespace Pass

def isBalancedText (s : String) : Bool := Text.isBalanced s.toList

/-- What the pass makes of the content, unless that would unbalance it. -/
def outcome (p : Pass) (content : String) : Except Fault (Except PassError String) := do
  match ← p.transform content with
  | .error e => return .error e
  | .ok output =>
    if isBalancedText content && !isBalancedText output then return .error (.unbalanced p.name)
    else return .ok output

def selects (p : Pass) (f : GeneratedFile) : Bool := p.targets f.kind && p.isApplicable f.content

def skipped (p : Pass) (path : String) (e : PassError) : String :=
  p.name ++ " skipped on " ++ path ++ ": " ++ e.message

/-- Applies a pass to a file that is no test. -/
def applyTo (state : GeneratedFile × OptimizationReport) (p : Pass) :
    Except Fault (GeneratedFile × OptimizationReport) := do
  let (f, report) := state
  if !p.selects f then return state
  match ← p.outcome f.content with
  | .ok output =>
    if output == f.content then return state
    else return ({ f with content := output },
      { report with applied := report.applied ++ [⟨p.name, f.displayPath⟩] })
  | .error e =>
    return (f, { report with diagnostics :=
      report.diagnostics.record .optimizationWarning (p.skipped f.displayPath e) })

/-- Applies the passes in order. A test stays as it is. -/
def applyAll (passes : List Pass) (f : GeneratedFile) (report : OptimizationReport) :
    Except Fault (GeneratedFile × OptimizationReport) :=
  if f.isTest then .ok (f, report) else passes.foldlM applyTo (f, report)

/-- Applies the passes to each file in turn. -/
def optimizeFrom (passes : List Pass) (report : OptimizationReport) :
    List GeneratedFile → Except Fault (List GeneratedFile × OptimizationReport)
  | [] => .ok ([], report)
  | f :: fs => do
    let (f, report) ← applyAll passes f report
    let (fs, report) ← optimizeFrom passes report fs
    return (f :: fs, report)

/-- The improved files, and what was done to them. -/
def optimize (passes : List Pass) (files : List GeneratedFile) :
    Except Fault (List GeneratedFile × OptimizationReport) :=
  optimizeFrom passes {} files

end Pass

end Recast
