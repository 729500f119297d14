/-!
# Diagnostics

What a conversion reports about itself. The kind of a diagnostic decides whether
it is an error or a warning, and the two are kept apart.
-/

namespace Recast

inductive DiagnosticKind
  | analysisWarning
  | analysisError
  | generationError
  | optimizationWarning
  | buildError
  deriving DecidableEq, Repr

namespace DiagnosticKind

def isError : DiagnosticKind → Bool
  | analysisError | generationError | buildError => true
  | analysisWarning | optimizationWarning => false

def label : DiagnosticKind → String
  | analysisWarning => "analysis warning"
  | analysisError => "analysis error"
  | generationError => "generation error"
  | optimizationWarning => "optimization warning"
  | buildError => "build error"

end DiagnosticKind

structure Diagnostic where
  kind : DiagnosticKind
  message : String
  deriving DecidableEq, Repr

def Diagnostic.display (d : Diagnostic) : String := d.kind.label ++ ": " ++ d.message

structure Diagnostics where
  errors : List Diagnostic := []
  warnings : List Diagnostic := []
  deriving DecidableEq, Repr

namespace Diagnostics

/-- Files a diagnostic by its kind. -/
def push (ds : Diagnostics) (d : Diagnostic) : Diagnostics :=
  if d.kind.isError then { ds with errors := ds.errors ++ [d] }
  else { ds with warnings := ds.warnings ++ [d] }

def record (ds : Diagnostics) (kind : DiagnosticKind) (message : String) : Diagnostics :=
  ds.push ⟨kind, message⟩

/-- Adds the diagnostics of another report as they were filed there. -/
def extend (ds more : Diagnostics) : Diagnostics :=
  ⟨ds.errors ++ more.errors, ds.warnings ++ more.warnings⟩

def hasErrors (ds : Diagnostics) : Bool := !ds.errors.isEmpty

def count (ds : Diagnostics) (kind : DiagnosticKind) : Nat :=
  (ds.errors ++ ds.warnings).countP (·.kind == kind)

end Diagnostics

end Recast
