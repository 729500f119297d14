import Recast.Proofs.Text.InkLines
import Recast.Proofs.Text.Once
import Recast.Proofs.Tool.ColourMarks

/-!
# Reports line by line

What a tool printed is read one line at a time, and a line is read alike whatever stands around it. So the
report of two outputs, one after the other, is made of their two reports, and what is in it can be told from
the lines (`read_line_local`).
-/

namespace Recast

namespace Text

/-- The lines of two texts, one after the other, are those of both and at most an empty one between them, unless
a carriage return at the end of the first joins the break. -/
theorem exists_lines_joined {a : List Char} (h : a.getLast? ≠ some '\r') (b : List Char) :
    ∃ gap, lines (a ++ '\n' :: b) = lines a ++ (gap ++ lines b) ∧ ∀ l ∈ gap, l = [] := by
  induction a using line_induction with
  | line l hl =>
    have hkept : withoutReturn l = l := if_neg h
    by_cases hne : l = []
    · subst hne
      exact ⟨[[]], rfl, by simp⟩
    · exact ⟨[], by rw [lines_append_feed hl, hkept, lines_of_line hl hne]; rfl, by simp⟩
  | cons l r hl ih =>
    have hr : r.getLast? ≠ some '\r' := by
      intro hr
      rw [List.getLast?_append, List.getLast?_cons, hr] at h
      exact h rfl
    obtain ⟨gap, hlines, hgap⟩ := ih hr
    refine ⟨gap, ?_, hgap⟩
    rw [List.append_assoc, List.cons_append, lines_append_feed hl, lines_append_feed hl, hlines, List.cons_append]

theorem trim_trim (text : List Char) : trim (trim text) = trim text := by
  have htight := isTight_trim text
  conv_lhs => rw [trim, htight.first, htight.last]

theorem isBlankText_trim (text : List Char) : isBlankText (trim text) = isBlankText text := by
  rw [Bool.eq_iff_iff, ← trim_eq_nil_iff, ← trim_eq_nil_iff, trim_trim]

end Text

/-! ### What a line says -/

namespace ReportLine

def error? : ReportLine → Option String
  | .error text => some (.ofList text)
  | _ => none

def warning? : ReportLine → Option String
  | .warning text => some (.ofList text)
  | _ => none

def chunk? : ReportLine → Option Chunk
  | .chunk c => some c
  | _ => none

@[simp] theorem ofText_nil : ofText [] = .other := rfl

/-- What a line says that is no error and no warning: the size of a chunk, the coverage, or nothing. -/
def ofMeasures (line : List Char) : ReportLine :=
  match Pattern.Report.sizeRow.find? line with
  | some m => ofSizes line m
  | none =>
    match Pattern.Report.coverageSummary.find? line with
    | some m => coverage (Decimal.float? (m.groupText line 1))
    | none => other

theorem ofMeasures_cases (line : List Char) :
    (∃ c, ofMeasures line = chunk c) ∨ (∃ percent?, ofMeasures line = coverage percent?) ∨ ofMeasures line = other := by
  unfold ofMeasures ofSizes
  dsimp only
  split
  · split
    · exact .inl ⟨_, rfl⟩
    · exact .inr (.inr rfl)
  · split
    · exact .inr (.inl ⟨_, rfl⟩)
    · exact .inr (.inr rfl)

@[simp] theorem error?_ofMeasures (line : List Char) : (ofMeasures line).error? = none := by
  obtain ⟨c, h⟩ | ⟨percent?, h⟩ | h := ofMeasures_cases line <;> rw [h] <;> rfl

@[simp] theorem warning?_ofMeasures (line : List Char) : (ofMeasures line).warning? = none := by
  obtain ⟨c, h⟩ | ⟨percent?, h⟩ | h := ofMeasures_cases line <;> rw [h] <;> rfl

/-- A line says what the first kind says that it is of. -/
theorem ofText_cases (line : List Char) :
    (Text.isBlankText line = true ∧ ofText line = other) ∨
    (Text.isBlankText line = false ∧ isError line = true ∧ ofText line = error (Text.trim line)) ∨
    (Text.isBlankText line = false ∧ isError line = false ∧ isWarning line = true ∧
      ofText line = warning (Text.trim line)) ∨
    (Text.isBlankText line = false ∧ isError line = false ∧ isWarning line = false ∧ ofText line = ofMeasures line) := by
  have heq : ofText line =
      if Text.isBlankText line then other
      else if isError line then error (Text.trim line)
      else if isWarning line then warning (Text.trim line)
      else ofMeasures line := rfl
  cases hblank : Text.isBlankText line <;> cases herror : isError line <;> cases hwarning : isWarning line <;>
    simp [heq, hblank, herror, hwarning]

theorem error?_ofText {line : List Char} {s : String} : (ofText line).error? = some s ↔
    Text.isBlankText line = false ∧ isError line = true ∧ .ofList (Text.trim line) = s := by
  obtain ⟨hblank, h⟩ | ⟨hblank, herror, h⟩ | ⟨hblank, herror, -, h⟩ | ⟨hblank, herror, -, h⟩ := ofText_cases line
  · simp [h, hblank, error?]
  · simp [h, hblank, herror, error?]
  · simp [h, herror, error?]
  · simp [h, herror]

theorem warning?_ofText {line : List Char} {s : String} : (ofText line).warning? = some s ↔
    Text.isBlankText line = false ∧ isError line = false ∧ isWarning line = true ∧ .ofList (Text.trim line) = s := by
  obtain ⟨hblank, h⟩ | ⟨-, herror, h⟩ | ⟨hblank, herror, hwarning, h⟩ | ⟨-, -, hwarning, h⟩ := ofText_cases line
  · simp [h, hblank, warning?]
  · simp [h, herror, warning?]
  · simp [h, hblank, herror, hwarning, warning?]
  · simp [h, hwarning]

end ReportLine

namespace ToolReport

/-- The parts of a report. -/
inductive Part
  | errors
  | warnings
  | chunks
  | coverage
  deriving DecidableEq, Repr

/-- The part is the same in both reports. -/
def Same (r r' : ToolReport) : Part → Prop
  | .errors => r'.errors = r.errors
  | .warnings => r'.warnings = r.warnings
  | .chunks => r'.chunks = r.chunks
  | .coverage => r'.coverage? = r.coverage?

/-- The part to which a line adds. -/
def partOf? : ReportLine → Option Part
  | .error _ => some .errors
  | .warning _ => some .warnings
  | .chunk _ => some .chunks
  | .coverage _ => some .coverage
  | .other => none

theorem same_add (r : ToolReport) {line : ReportLine} {part : Part} (h : partOf? line ≠ some part) :
    Same r (r.add line) part := by
  cases line <;> cases part <;> simp_all [Same, add, partOf?]

/-- A line adds to one part at most. -/
theorem exists_part_add (r : ToolReport) (line : ReportLine) :
    ∃ part, ∀ other ≠ part, Same r (r.add line) other := by
  cases hpart : partOf? line with
  | none => exact ⟨.errors, fun other _ => same_add r (by simp [hpart])⟩
  | some part => exact ⟨part, fun other hother => same_add r (by simpa [hpart] using Ne.symm hother)⟩

/-! ### What is reported -/

/-- A part of the report takes in, line by line, what the lines say that is for it. -/
theorem foldl_add {α β : Type} {part : ToolReport → β} {said? : ReportLine → Option α} (put : β → α → β)
    (h : ∀ r line, part (add r line) = (said? line).elim (part r) (put (part r))) (r : ToolReport)
    (ls : List ReportLine) : part (ls.foldl add r) = (ls.filterMap said?).foldl put (part r) := by
  induction ls generalizing r with
  | nil => rfl
  | cons l ls ih =>
    rw [List.foldl_cons, ih, h]
    cases hsaid : said? l with
    | none => rw [List.filterMap_cons_none hsaid]; rfl
    | some a => rw [List.filterMap_cons_some hsaid]; rfl

variable (text : List Char)

theorem errors_read : (read text).errors = ((readLines text).filterMap ReportLine.error?).eraseDups := by
  have hline (r : ToolReport) (line : ReportLine) :
      (r.add line).errors = line.error?.elim r.errors (addOnce r.errors) := by
    cases line <;> rfl
  exact (foldl_add addOnce hline {} (readLines text)).trans (foldl_addOnce _)

theorem warnings_read : (read text).warnings = ((readLines text).filterMap ReportLine.warning?).eraseDups := by
  have hline (r : ToolReport) (line : ReportLine) :
      (r.add line).warnings = line.warning?.elim r.warnings (addOnce r.warnings) := by
    cases line <;> rfl
  exact (foldl_add addOnce hline {} (readLines text)).trans (foldl_addOnce _)

theorem chunks_read : (read text).chunks = (readLines text).filterMap ReportLine.chunk? := by
  have hline (r : ToolReport) (line : ReportLine) :
      (r.add line).chunks = line.chunk?.elim r.chunks fun c => r.chunks ++ [c] := by
    cases line <;> rfl
  refine (foldl_add (fun cs c => cs ++ [c]) hline {} (readLines text)).trans ?_
  rw [List.foldl_append_eq_append, ← List.flatMap_def, List.flatMap_singleton']
  rfl

variable {text}

/-- An error is what a line says that is not blank. -/
theorem mem_errors_read {s : String} : s ∈ (read text).errors ↔
    ∃ l ∈ Text.lines (stripColours text), Text.isBlankText l = false ∧ ReportLine.isError l = true ∧
      .ofList (Text.trim l) = s := by
  simp only [errors_read, List.mem_eraseDups, readLines, List.filterMap_map, List.mem_filterMap, Function.comp_apply,
    ReportLine.error?_ofText]

theorem mem_warnings_read {s : String} : s ∈ (read text).warnings ↔
    ∃ l ∈ Text.lines (stripColours text), Text.isBlankText l = false ∧ ReportLine.isError l = false ∧
      ReportLine.isWarning l = true ∧ .ofList (Text.trim l) = s := by
  simp only [warnings_read, List.mem_eraseDups, readLines, List.filterMap_map, List.mem_filterMap,
    Function.comp_apply, ReportLine.warning?_ofText]

/-- The string is a line of the text without its marks, less the blanks around it, and it is not blank. -/
structure IsTrimmedLine (text : List Char) (s : String) : Prop where
  line : ∃ l ∈ Text.lines (stripColours text), .ofList (Text.trim l) = s
  trimmed : Str.trim s = s
  visible : Str.isBlank s = false

theorem isTrimmedLine_of_mem {l : List Char} (hl : l ∈ Text.lines (stripColours text))
    (hvisible : Text.isBlankText l = false) : IsTrimmedLine text (.ofList (Text.trim l)) where
  line := ⟨l, hl, rfl⟩
  trimmed := by rw [Str.trim, String.toList_ofList, Text.trim_trim]
  visible := by rw [Str.isBlank, String.toList_ofList, Text.isBlankText_trim, hvisible]

theorem isTrimmedLine_of_reported {s : String} (h : s ∈ (read text).errors ++ (read text).warnings) :
    IsTrimmedLine text s := by
  rcases List.mem_append.1 h with h | h
  · obtain ⟨l, hl, hvisible, -, rfl⟩ := mem_errors_read.1 h
    exact isTrimmedLine_of_mem hl hvisible
  · obtain ⟨l, hl, hvisible, -, -, rfl⟩ := mem_warnings_read.1 h
    exact isTrimmedLine_of_mem hl hvisible

/-! ### Outputs one after the other -/

theorem exists_readLines_joined {a : List Char} (h : (stripColours a).getLast? ≠ some '\r') (b : List Char) :
    ∃ gap, readLines (a ++ '\n' :: b) = readLines a ++ (gap ++ readLines b) ∧ ∀ l ∈ gap, l = .other := by
  obtain ⟨gap, hlines, hgap⟩ := Text.exists_lines_joined h (stripColours b)
  refine ⟨gap.map ReportLine.ofText, ?_, fun l hl => ?_⟩
  · rw [readLines, stripColours_append, hlines, List.map_append, List.map_append]
    rfl
  · obtain ⟨line, hline, rfl⟩ := List.mem_map.1 hl
    rw [hgap line hline, ReportLine.ofText_nil]

/-- What is gathered from the lines of both outputs is what is gathered from each. -/
theorem filterMap_readLines_joined {α : Type} (f : ReportLine → Option α) (hf : f .other = none) {a : List Char}
    (h : (stripColours a).getLast? ≠ some '\r') (b : List Char) :
    (readLines (a ++ '\n' :: b)).filterMap f = (readLines a).filterMap f ++ (readLines b).filterMap f := by
  obtain ⟨gap, hlines, hgap⟩ := exists_readLines_joined h b
  have hnone : gap.filterMap f = [] := List.filterMap_eq_nil_iff.2 fun l hl => by rw [hgap l hl, hf]
  rw [hlines, List.filterMap_append, List.filterMap_append, hnone, List.nil_append]

/-- The report of two outputs with a line feed between them has the chunks of both, and the errors and the
warnings of the first, then those of the second that are not among them, unless the first ends in a carriage
return once its marks are dropped. Every error and every warning is a line without the marks and without the
blanks around it, is not blank and is reported once, and no line adds to more than one part of a report. -/
theorem read_line_local :
    (∀ a b : List Char, (stripColours a).getLast? ≠ some '\r' →
      (read (a ++ '\n' :: b)).chunks = (read a).chunks ++ (read b).chunks ∧
      (read (a ++ '\n' :: b)).errors = (read a).errors ++ (read b).errors.filter (· ∉ (read a).errors) ∧
      (read (a ++ '\n' :: b)).warnings = (read a).warnings ++ (read b).warnings.filter (· ∉ (read a).warnings)) ∧
    (∀ text : List Char, (read text).errors.Nodup ∧ (read text).warnings.Nodup ∧
      ∀ s ∈ (read text).errors ++ (read text).warnings, IsTrimmedLine text s) ∧
    ∀ (r : ToolReport) (line : List Char), ∃ part, ∀ other ≠ part, Same r (r.add (.ofText line)) other := by
  refine ⟨fun a b h => ⟨?_, ?_, ?_⟩, fun text => ⟨?_, ?_, fun s => isTrimmedLine_of_reported⟩,
    fun r line => exists_part_add r (.ofText line)⟩
  · rw [chunks_read, chunks_read, chunks_read, filterMap_readLines_joined ReportLine.chunk? rfl h b]
  · rw [errors_read, errors_read, errors_read, filterMap_readLines_joined ReportLine.error? rfl h b,
      eraseDups_append_eq]
  · rw [warnings_read, warnings_read, warnings_read, filterMap_readLines_joined ReportLine.warning? rfl h b,
      eraseDups_append_eq]
  · rw [errors_read]
    exact nodup_eraseDups _
  · rw [warnings_read]
    exact nodup_eraseDups _

/-- A failure in colour and a warning, with carriage returns before the line feeds. -/
def failedRun : List Char := "\x1b[31m FAIL \x1b[39m src/A.test.tsx > A\r\n(!) Large chunk\r\n".toList

/-- The same failure without colour, and a chunk. -/
def failedAgain : List Char := " FAIL  src/A.test.tsx > A\n✘ [ERROR] gone\ndist/a.js 2.50 kB │ gzip: 1.00 kB".toList

theorem failedRun_then_failedAgain : (stripColours failedRun).getLast? ≠ some '\r' ∧
    (read (failedRun ++ '\n' :: failedAgain)).errors = ["FAIL  src/A.test.tsx > A", "✘ [ERROR] gone"] ∧
    (read (failedRun ++ '\n' :: failedAgain)).warnings = ["(!) Large chunk"] ∧
    (read (failedRun ++ '\n' :: failedAgain)).chunks = [⟨"dist/a.js", 2500, 1000⟩] := by
  have hend : (stripColours failedRun).getLast? ≠ some '\r' := by decide +kernel
  obtain ⟨hchunks, herrors, hwarnings⟩ := read_line_local.1 failedRun failedAgain hend
  have hfirst : (read failedRun).errors = ["FAIL  src/A.test.tsx > A"] ∧
      (read failedRun).warnings = ["(!) Large chunk"] ∧ (read failedRun).chunks = [] := by
    decide +kernel
  have hsecond : (read failedAgain).errors = ["FAIL  src/A.test.tsx > A", "✘ [ERROR] gone"] ∧
      (read failedAgain).warnings = [] ∧ (read failedAgain).chunks = [⟨"dist/a.js", 2500, 1000⟩] := by
    decide +kernel
  obtain ⟨herrors₁, hwarnings₁, hchunks₁⟩ := hfirst
  obtain ⟨herrors₂, hwarnings₂, hchunks₂⟩ := hsecond
  refine ⟨hend, ?_, ?_, ?_⟩
  · rw [herrors, herrors₁, herrors₂]
    decide
  · rw [hwarnings, hwarnings₁, hwarnings₂]
    rfl
  · rw [hchunks, hchunks₁, hchunks₂]
    rfl

end ToolReport

end Recast
