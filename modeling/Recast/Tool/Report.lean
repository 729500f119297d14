import Recast.Decimal.Print
import Recast.Pattern.Report
import Recast.Text.Lines

/-!
# Tool reports

What a tool printed, read line by line. A line is an error, a warning, the size of
a chunk or the coverage summary, whichever comes first in this order, or it says
nothing. Errors and warnings are kept once, chunks each time, and the last summary
row counts.
-/

namespace Recast

/-- A file of the bundle. Sizes are words of 64 bits. -/
structure Chunk where
  name : String
  bytes : UInt64
  compressed : UInt64
  deriving DecidableEq, Repr

namespace Chunk

/-- The bytes in one unit. -/
def scale? : List Char → Option Float
  | ['B'] => some 1.0
  | ['k', 'B'] | ['K', 'B'] => some 1000.0
  | ['K', 'i', 'B'] => some 1024.0
  | ['M', 'B'] => some 1000000.0
  | ['M', 'i', 'B'] => some 1048576.0
  | _ => none

/-- The size to the nearest byte, at most the largest word. Commas in the number are
skipped. -/
def bytes? (number unit : List Char) : Option UInt64 := do
  let value ← Decimal.float? (number.filter (· != ','))
  let scale ← scale? unit
  return Decimal.toWord (value * scale)

end Chunk

inductive ReportLine
  | error (text : List Char)
  | warning (text : List Char)
  | chunk (c : Chunk)
  | coverage (percent? : Option Float)
  | other
  deriving Repr

namespace ReportLine

def isError (line : List Char) : Bool :=
  Pattern.Report.anyMatches Pattern.Report.failedTest line ||
    Pattern.Report.anyMatches Pattern.Report.compilerError line ||
    Pattern.Report.anyMatches Pattern.Report.bundlerError line

def isWarning (line : List Char) : Bool :=
  Pattern.Report.anyMatches Pattern.Report.warning line

/-- The row of a chunk. One with a size that is no number says nothing. -/
def ofSizes (line : List Char) (m : Match) : ReportLine :=
  let group := m.groupText line
  match Chunk.bytes? (group 2) (group 3), Chunk.bytes? (group 4) (group 5) with
  | some bytes, some compressed => chunk ⟨.ofList (group 1), bytes, compressed⟩
  | _, _ => other

def ofText (line : List Char) : ReportLine :=
  if Text.isBlankText line then other
  else if isError line then error (Text.trim line)
  else if isWarning line then warning (Text.trim line)
  else
    match Pattern.Report.sizeRow.find? line with
    | some m => ofSizes line m
    | none =>
      match Pattern.Report.coverageSummary.find? line with
      | some m => coverage (Decimal.float? (m.groupText line 1))
      | none => other

end ReportLine

structure ToolReport where
  errors : List String := []
  warnings : List String := []
  chunks : List Chunk := []
  /-- Covered statements in percent. -/
  coverage? : Option Float := none
  deriving Repr

namespace ToolReport

/-- Adds a line that is not there yet. -/
def addOnce (lines : List String) (line : String) : List String :=
  if lines.contains line then lines else lines ++ [line]

def add (r : ToolReport) : ReportLine → ToolReport
  | .error text => { r with errors := addOnce r.errors (.ofList text) }
  | .warning text => { r with warnings := addOnce r.warnings (.ofList text) }
  | .chunk c => { r with chunks := r.chunks ++ [c] }
  | .coverage percent? => { r with coverage? := percent? }
  | .other => r

/-- The text without the marks that colour it on a terminal. -/
def stripColours (text : List Char) : List Char :=
  Pattern.Report.ansiEscape.replaceAll (fun _ => []) text

def readLines (text : List Char) : List ReportLine :=
  (Text.lines (stripColours text)).map ReportLine.ofText

def read (text : List Char) : ToolReport := (readLines text).foldl add {}

end ToolReport

end Recast
