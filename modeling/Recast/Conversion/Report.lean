import Recast.Conversion.Result
import Recast.Json

/-!
# Reports as JSON

The facts of an analysis in the order in which they are told, and the result of a
conversion with the names of every object in rising order.
-/

namespace Recast

def NameSource.label : NameSource → String
  | declared => "declared"
  | declaration => "declaration"
  | exported => "export"
  | fallback => "fallback"

def ComponentKind.label : ComponentKind → String
  | functional => "functional"
  | statefulClass => "stateful_class"

def BindingKind.label : BindingKind → String
  | default => "default"
  | named => "named"
  | wholeModule => "namespace"
  | sideEffect => "side_effect"

def EffectKind.label : EffectKind → String
  | effect => "effect"
  | layoutEffect => "layout_effect"
  | memo => "memo"
  | callback => "callback"
  | mount => "mount"
  | update => "update"
  | unmount => "unmount"

def ComplexityClass.label : ComplexityClass → String
  | low => "low"
  | medium => "medium"
  | high => "high"

def DiagnosticKind.code : DiagnosticKind → String
  | analysisWarning => "analysis_warning"
  | analysisError => "analysis_error"
  | generationError => "generation_error"
  | optimizationWarning => "optimization_warning"
  | buildError => "build_error"

def Diagnostic.toJson (d : Diagnostic) : Json :=
  .object [("kind", .string d.kind.code), ("message", .string d.message)]

def Diagnostics.toJson (ds : Diagnostics) : Json :=
  .object [("errors", .array (ds.errors.map (·.toJson))),
    ("warnings", .array (ds.warnings.map (·.toJson)))]

def ImportBinding.toJson (i : ImportBinding) : Json :=
  .object [("name", .string i.name), ("origin", .string i.origin),
    ("binding_kind", .string i.kind.label)]

def PropSpec.toJson (p : PropSpec) : Json :=
  .object [("name", .string p.name), ("inferred_type", .string p.type),
    ("required", .boolean p.required), ("default_expr", .ofString? p.default?)]

def StateBinding.toJson (s : StateBinding) : Json :=
  .object [("name", .string s.name), ("setter", .ofString? s.setter?),
    ("inferred_type", .string s.type), ("initial_expr", .string s.initial)]

def Effect.toJson (e : Effect) : Json :=
  .object [("kind", .string e.kind.label), ("dependencies", .ofStrings e.dependencies),
    ("body", .ofString? e.body?)]

def Features.toJson (f : Features) : Json :=
  .object [("uses_navigation", .boolean f.navigation), ("uses_media", .boolean f.media),
    ("uses_animation", .boolean f.animation), ("uses_remote_data", .boolean f.remoteData)]

def Handler.toJson (h : Handler) : Json :=
  .object [("name", .string h.name), ("source", .string h.source)]

def Facts.toJson (f : Facts) : Json :=
  .object [("component_name", .string f.name), ("name_source", .string f.nameSource.label),
    ("component_kind", .string f.kind.label), ("structural_tier", .string f.tier.label),
    ("imports", .array (f.imports.map (·.toJson))), ("props", .array (f.props.map (·.toJson))),
    ("props_alias", .ofString? f.propsAlias?),
    ("state_bindings", .array (f.state.map (·.toJson))),
    ("effect_primitives", .array (f.effects.map (·.toJson))),
    ("feature_flags", f.features.toJson), ("style_tokens", .ofStrings f.styleTokens),
    ("endpoints", .ofStrings f.endpoints), ("handlers", .array (f.handlers.map (·.toJson))),
    ("render_markup", .ofString? f.markup?), ("body_statements", .ofString? f.statements?),
    ("diagnostics", f.diagnostics.toJson)]

def GeneratedFile.toJson (f : GeneratedFile) : Json :=
  .object [("relative_path", .string f.path), ("content", .string f.content),
    ("artifact_kind", .string f.kind.label),
    ("structural_tier", .ofString? (f.tier?.map (·.label)))]

def Chunk.toJson (c : Chunk) : Json :=
  .object [("name", .string c.name), ("bytes", .ofNat c.bytes.toNat),
    ("compressed_bytes", .ofNat c.compressed.toNat)]

/-- The coverage as a report writes it. One that is not finite is left out. -/
def ToolMetrics.writtenCoverage? (m : ToolMetrics) : Option Float :=
  m.coverage?.filter (·.isFinite)

def ToolMetrics.toJson (m : ToolMetrics) : Json :=
  .object [("test_ms", .ofNat m.testMillis), ("build_ms", .ofNat m.buildMillis),
    ("total_bundle_bytes", .ofNat m.totalBytes.toNat),
    ("chunks", .array (m.chunks.map (·.toJson))),
    ("coverage", (m.writtenCoverage?.map fun x => .number (Decimal.json x)).getD .null)]

def Outcome.toJson (o : Outcome) : Json :=
  .object [("success", .boolean o.success), ("errors", .ofStrings o.errors),
    ("warnings", .ofStrings o.warnings), ("metrics", o.metrics.toJson)]

def AppliedPass.toJson (a : AppliedPass) : Json :=
  .object [("pass", .string a.pass), ("path", .string a.path)]

namespace ConversionResult

def metricsJson (r : ConversionResult) : Json :=
  .object [("elapsed_ms", .ofNat r.elapsedMillis), ("file_count", .ofNat r.fileCount),
    ("line_count", .ofNat r.lineCount),
    ("applied_optimizations", .array (r.applied.map (·.toJson))),
    ("complexity", .string r.complexity.label)]

def toJson (r : ConversionResult) : Json :=
  .object [("component_name", .string r.name), ("files", .array (r.files.map (·.toJson))),
    ("diagnostics", r.diagnostics.toJson), ("metrics", r.metricsJson),
    ("build_outcome", (r.outcome?.map (·.toJson)).getD .null)]

/-- The result and whether it is a success, names in rising order. -/
def report (r : ConversionResult) : String :=
  (Json.object [("success", .boolean r.success), ("result", r.toJson)]).sorted.pretty

end ConversionResult

end Recast
