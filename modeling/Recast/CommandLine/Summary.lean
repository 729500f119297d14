import Recast.Conversion.Report

/-!
# Summaries

The text that is printed where no JSON is asked for.
-/

namespace Recast.CommandLine

def printLines (lines : List String) : String := String.join (lines.map (· ++ "\n"))

/-- The text with blanks after it up to a width. -/
def padded (width : Nat) (s : String) : String :=
  s ++ .ofList (List.replicate (width - s.length) ' ')

def kindTitle : ComponentKind → String
  | .functional => "Functional"
  | .statefulClass => "StatefulClass"

def complexityTitle : ComplexityClass → String
  | .low => "Low"
  | .medium => "Medium"
  | .high => "High"

def effectTitle : EffectKind → String
  | .effect => "Effect"
  | .layoutEffect => "LayoutEffect"
  | .memo => "Memo"
  | .callback => "Callback"
  | .mount => "Mount"
  | .update => "Update"
  | .unmount => "Unmount"

/-- A heading after an empty line, then its lines, if there are any. -/
def sectionLines (heading : String) (lines : List String) : List String :=
  if lines.isEmpty then [] else "" :: heading :: lines

def noteLines (ds : Diagnostics) : List String :=
  ds.warnings.map (" warning: " ++ ·.display) ++ ds.errors.map (" error: " ++ ·.display)

def featureNames (f : Features) : List String :=
  ([(f.navigation, "navigation"), (f.media, "media"), (f.animation, "animation"),
    (f.remoteData, "remote data")].filter Prod.fst).map Prod.snd

def propLine (p : PropSpec) : String :=
  "    " ++ p.name ++ (if p.required then "" else "?") ++ ": " ++ p.type

def effectLine (e : Effect) : String :=
  "    " ++ effectTitle e.kind ++ " [" ++ ", ".intercalate e.dependencies ++ "]"

def factsLines (f : Facts) : List String :=
  let used := featureNames f.features
  [" Component: " ++ f.name, "  Kind:       " ++ kindTitle f.kind,
    "  Tier:       " ++ f.tier.label,
    "  Complexity: " ++ complexityTitle f.complexityClass ++ " (" ++
      Decimal.fixed 1 f.complexity ++ ")"] ++
  sectionLines "  Props:" (f.props.map propLine) ++
  sectionLines "  State:" (f.state.map fun s => "    " ++ s.name ++ ": " ++ s.type) ++
  sectionLines "  Effects:" (f.effects.map effectLine) ++
  (if used.isEmpty then [] else ["", "  Uses: " ++ ", ".intercalate used]) ++
  noteLines f.diagnostics

def outcomeLines (o : Outcome) : List String :=
  ["", " Toolchain: " ++ if o.success then "passed" else "failed"] ++
  (match o.metrics.coverage? with
    | some x => ["    Coverage: " ++ Decimal.fixed 2 x ++ "%"]
    | none => []) ++
  (if 0 < o.metrics.totalBytes then
    ["    Bundle:   " ++ toString o.metrics.totalBytes.toNat ++ " bytes in " ++
      toString o.metrics.chunks.length ++ " chunks"]
  else []) ++
  o.errors.map ("    " ++ ·)

def resultLines (r : ConversionResult) : List String :=
  [" " ++ r.name ++ (if r.success then " converted (" else " failed (") ++
    complexityTitle r.complexity ++ " complexity)"] ++
  sectionLines " Files written:"
    (r.files.map fun f => "    " ++ padded 9 f.kind.label ++ " " ++ f.displayPath) ++
  sectionLines " Optimizations:" (r.applied.map fun a => "    " ++ padded 22 a.pass ++ " " ++ a.path) ++
  (match r.outcome? with
    | some o => outcomeLines o
    | none => []) ++
  noteLines r.diagnostics ++
  ["", " " ++ toString r.fileCount ++ " files, " ++ toString r.lineCount ++ " lines in " ++
    toString r.elapsedMillis ++ "ms"]

end Recast.CommandLine
