import Recast.Text.Str

/-!
# Code builder

Lines of code at a tracked depth. Blank lines are kept single: none at the start,
none before a closing line, and in the finished text no two in a row.
-/

namespace Recast

structure CodeBuilder where
  written : List String := []
  depth : Nat := 0
  deriving DecidableEq, Repr

namespace CodeBuilder

def indentation (depth : Nat) : String := .ofList (List.replicate (2 * depth) ' ')

def line (b : CodeBuilder) (s : String) : CodeBuilder :=
  let s := if Str.isBlank s then "" else indentation b.depth ++ s
  { b with written := b.written ++ [s] }

/-- Adds the lines of a block, each moved to the current depth. -/
def lines (b : CodeBuilder) (block : String) : CodeBuilder := (Str.lines block).foldl line b

def lineEach (b : CodeBuilder) (ss : List String) : CodeBuilder := ss.foldl line b

def endsBlank (b : CodeBuilder) : Bool := b.written.getLast? == some ""

/-- Adds a blank line after a line that is not blank. -/
def blank (b : CodeBuilder) : CodeBuilder :=
  if b.written.isEmpty || b.endsBlank then b else { b with written := b.written ++ [""] }

def opening (b : CodeBuilder) (header : String) : CodeBuilder :=
  let b := b.line header
  { b with depth := b.depth + 1 }

/-- Goes one level up and drops a blank line before the footer. -/
def closing (b : CodeBuilder) (footer : String) : CodeBuilder :=
  let kept := if b.endsBlank then b.written.dropLast else b.written
  line ⟨kept, b.depth - 1⟩ footer

/-- A line that closes one level and opens the next. -/
def branch (b : CodeBuilder) (s : String) : CodeBuilder :=
  let b := line { b with depth := b.depth - 1 } s
  { b with depth := b.depth + 1 }

def block (b : CodeBuilder) (header footer : String) (body : CodeBuilder → CodeBuilder) :
    CodeBuilder :=
  (body (b.opening header)).closing footer

/-- Applies `f` if the condition holds. -/
def when (b : CodeBuilder) (condition : Bool) (f : CodeBuilder → CodeBuilder) : CodeBuilder :=
  if condition then f b else b

/-- Drops each blank line that starts the text or follows a blank line. -/
def collapse (afterBlank : Bool) : List String → List String
  | [] => []
  | s :: ss =>
    if s.isEmpty && afterBlank then collapse true ss else s :: collapse s.isEmpty ss

/-- The finished lines. -/
def finished (b : CodeBuilder) : List String :=
  ((collapse true b.written).reverse.dropWhile (·.isEmpty)).reverse

def build (b : CodeBuilder) : String := String.intercalate "\n" b.finished ++ "\n"

/-- One operation of a builder. -/
inductive Step
  | line (s : String)
  | lines (block : String)
  | blank
  | opening (header : String)
  | closing (footer : String)
  | branch (s : String)
  | block (header footer : String) (body : List Step)

mutual

def Step.apply (b : CodeBuilder) : Step → CodeBuilder
  | .line s => b.line s
  | .lines s => b.lines s
  | .blank => b.blank
  | .opening s => b.opening s
  | .closing s => b.closing s
  | .branch s => b.branch s
  | .block header footer body => (applyAll (b.opening header) body).closing footer

def Step.applyAll (b : CodeBuilder) : List Step → CodeBuilder
  | [] => b
  | s :: ss => applyAll (Step.apply b s) ss

end

end CodeBuilder

end Recast
