import Recast.Pattern.Build

/-!
# Patterns of tool reports

Lines that a test runner, a compiler or a bundler prints: failures, warnings,
sizes of chunks and the coverage summary.
-/

namespace Recast.Pattern.Report

open Pattern

def ansiEscape : Pattern :=
  lit "\x1b[" ++ star (char fun c => c.isDigit || c == ';' || c == '?') ++ char Char.isAlpha

/-- Blanks at the start of the line. -/
def leading : Pattern := textStart ++ blanks

def notBlanks1 : Pattern := plus notBlank

def positionInFile : Pattern := digits1 ++ lit ":" ++ digits1

def failedTest : List Pattern :=
  [leading ++ lit "FAIL" ++ blanks1 ++ notBlanks1,
    leading ++ oneIn "×✗✕" ++ blanks1 ++ plus onLine,
    leading ++ lit "❯" ++ blanks1 ++ notBlanks1 ++ star onLine ++ lit "(" ++ digits1 ++ blanks1 ++
      lit "test" ++ opt (lit "s") ++ blanks ++ lit "|" ++ blanks ++ digits1 ++ blanks1 ++
      lit "failed",
    leading ++ oneOfWords ["Tests", "Test Files"] ++ blanks1 ++ digits1 ++ blanks1 ++ lit "failed",
    leading ++ lit "AssertionError:"]

def compilerError : List Pattern :=
  [wordEdge ++ lit "error TS" ++ digits1 ++ lit ":",
    textStart ++ notBlanks1 ++ lit "." ++ oneOfWords ["ts", "tsx", "js", "jsx", "mjs"] ++
      lit ":" ++ positionInFile ++ blanks1 ++ lit "-" ++ blanks1 ++ lit "error" ++ wordEdge,
    leading ++ positionInFile ++ blanks1 ++ lit "error" ++ blanks1 ++ notBlank,
    leading ++ lit "SyntaxError:"]

def bundlerError : List Pattern :=
  [leading ++ lit "error during build:", leading ++ lit "✘ [ERROR]",
    leading ++ lit "[vite]" ++ star onLine ++ wordEdge ++ lit "error" ++ wordEdge,
    wordEdge ++ lit "RollupError" ++ wordEdge, wordEdge ++ lit "Could not resolve" ++ wordEdge]

def warning : List Pattern :=
  [leading ++ positionInFile ++ blanks1 ++ lit "warning" ++ blanks1 ++ notBlank,
    leading ++ lit "(!)" ++ blanks1 ++ notBlank, leading ++ lit "▲ [WARNING]",
    wordEdge ++ lit "warning TS" ++ digits1 ++ lit ":"]

def sizeNumber : Pattern := plus (char fun c => Unicode.isDigitChar c || c == '.' || c == ',')

def sizeUnit : Pattern := oneOfWords ["B", "kB", "KB", "KiB", "MB", "MiB"]

/-- The row of a chunk: file, size and unit, compressed size and unit. -/
def sizeRow : Pattern :=
  leading ++
    group 1 (notBlanks1 ++ lit "." ++ oneOfWords ["js", "mjs", "cjs", "css", "html", "wasm"]) ++
    blanks1 ++ group 2 sizeNumber ++ blanks ++ group 3 sizeUnit ++ blanks ++ oneIn "│|" ++
    blanks ++ lit "gzip:" ++ blanks ++ group 4 sizeNumber ++ blanks ++ group 5 sizeUnit

def coverageSummary : Pattern :=
  leading ++ lit "All files" ++ blanks ++ lit "|" ++ blanks ++
    group 1 (plus (char fun c => Unicode.isDigitChar c || c == '.'))

def anyMatches (ps : List Pattern) (line : List Char) : Bool := ps.any (·.isIn line)

end Recast.Pattern.Report
