import Recast.Conversion.Result
import Recast.Proofs.Component.EntryCuts
import Recast.Proofs.Component.Filing
import Recast.Proofs.Optimize.Tolerance
import Recast.Proofs.Suite.Scenarios

/-!
# The account of a conversion

The machine is arbitrary: every file may be written or not, every tool may end as it likes.
Where the analysis reports an error or nothing is generated, no file and no tool is touched.
Otherwise each drafted file is tried once, and the result lists those that were written,
one error for each that was not, and one for a failed run of the tools
(`convert_accounts`). There is no result only where a character would be cut.
-/

namespace Recast

open Template (contextOf)

namespace PersistReport

/-- What is reported about a write. -/
def failure? (write : GeneratedFile × WriteResult) : Option Diagnostic :=
  match write.2 with
  | .ok () => none
  | .error e => some ⟨.generationError, e.message⟩

def arrived (write : GeneratedFile × WriteResult) : Bool := (failure? write).isNone

variable (f : GeneratedFile) (writes : List (GeneratedFile × WriteResult))

@[simp] theorem failure?_ok (u : Unit) : failure? (f, .ok u) = none := rfl

@[simp] theorem failure?_error (e : WriteFault) :
    failure? (f, .error e) = some ⟨.generationError, e.message⟩ := rfl

@[simp] theorem arrived_ok (u : Unit) : arrived (f, .ok u) = true := rfl

@[simp] theorem arrived_error (e : WriteFault) : arrived (f, .error e) = false := rfl

theorem foldl_add (r : PersistReport) :
    writes.foldl add r =
      ⟨r.written ++ (writes.filter arrived).map Prod.fst,
        r.diagnostics.errors ++ writes.filterMap failure?, r.diagnostics.warnings⟩ := by
  induction writes generalizing r with
  | nil => simp
  | cons write writes ih =>
    obtain ⟨f, result⟩ := write
    rw [List.foldl_cons, ih]
    cases result with
    | ok u => simp [add, List.filter_cons, List.filterMap_cons]
    | error e => simp [add, Diagnostics.record, Diagnostics.push, DiagnosticKind.isError]

theorem ofWrites_eq :
    ofWrites writes = ⟨(writes.filter arrived).map Prod.fst, ⟨writes.filterMap failure?, []⟩⟩ :=
  (foldl_add writes {}).trans (by simp)

/-- A write that failed is a generation error and nothing else. -/
theorem countP_failure? (kind : DiagnosticKind) :
    (writes.filterMap failure?).countP (·.kind == kind) =
      if kind = .generationError then writes.countP (!arrived ·) else 0 := by
  induction writes with
  | nil => simp
  | cons write writes ih =>
    obtain ⟨f, result⟩ := write
    cases result with
    | ok u => simpa [List.filterMap_cons] using ih
    | error e =>
      simp only [List.filterMap_cons, failure?_error, List.countP_cons, ih]
      cases kind <;> simp

theorem filterMap_failure?_eq_nil_iff {writes : List (GeneratedFile × WriteResult)} :
    writes.filterMap failure? = [] ↔ ∀ write ∈ writes, arrived write = true := by
  simp [arrived]

end PersistReport

namespace Machine

variable {σ : Type} (w : Machine (StateM σ)) (c : Config)

theorem map_fst_writeFiles (root : String) (files : List GeneratedFile) (s : σ) :
    ((w.writeFiles root files).run s).1.map Prod.fst = files := by
  induction files generalizing s with
  | nil => rfl
  | cons f fs ih =>
    have hcons : ((w.writeFiles root (f :: fs)).run s).1 =
        (f, ((w.writeFile root f).run s).1) ::
          ((w.writeFiles root fs).run ((w.writeFile root f).run s).2).1 := by
      unfold writeFiles
      rw [List.mapM_cons]
      rfl
    rw [hcons, List.map_cons, ih]

/-- What becomes of the drafted files. -/
def writes (drafted : List GeneratedFile) (s : σ) : List (GeneratedFile × WriteResult) × σ :=
  (w.writeFiles c.outputRoot drafted).run s

/-- The runs of the enabled tools. -/
def runs (s : σ) : List ToolRun × σ :=
  ((Toolchain.ofConfig c).runSteps w.run (ToolStep.enabled c)).run s

def tick (s : σ) : σ := (w.now.run s).2

/-- What the result says about drafted files that were handed to the machine. -/
structure Settled (drafted : List GeneratedFile) (s : σ) (r : ConversionResult) (s' : σ) : Prop where
  tried : (w.writes c drafted s).1.map Prod.fst = drafted
  files : r.files = ((w.writes c drafted s).1.filter PersistReport.arrived).map Prod.fst
  paths : (r.files.map (·.path)).Nodup
  generationErrors : r.diagnostics.count .generationError =
    (w.writes c drafted s).1.countP (!PersistReport.arrived ·)
  outcome : r.outcome? =
    if c.runsToolchain then
      some (.ofRuns c.requiredCoverage (w.runs c (w.writes c drafted s).2).1)
    else none
  buildErrors : r.diagnostics.count .buildError = if r.outcome?.any (!·.success) then 1 else 0
  success : r.success = true ↔
    (∀ write ∈ (w.writes c drafted s).1, PersistReport.arrived write = true) ∧
      ∀ o, r.outcome? = some o → o.success = true
  fileCount : r.fileCount = r.files.length
  lineCount : r.lineCount = (r.files.map (·.lineCount)).foldr (· + ·) 0
  state : s' = w.tick (w.runs c (w.writes c drafted s).2).2

theorem run_convert_of_draft {passes : List Pass} {source : String} {declared? : Option String}
    {d : Draft} {drafted : List GeneratedFile} (h : Draft.ofSource c passes source declared? = .ok d)
    (hfiles : d.files? = some drafted) (s : σ) :
    ∃ millis, (w.convert c passes source declared?).run s =
      (.ok { d.finish c (w.writes c drafted (w.tick s)).1
              (w.runs c (w.writes c drafted (w.tick s)).2).1 with elapsedMillis := millis },
        w.tick (w.runs c (w.writes c drafted (w.tick s)).2).2) := by
  unfold convert carryOut
  rw [h]
  dsimp only
  rw [hfiles]
  exact ⟨_, rfl⟩

theorem run_convert_of_abandoned {passes : List Pass} {source : String} {declared? : Option String}
    {d : Draft} (h : Draft.ofSource c passes source declared? = .ok d) (hfiles : d.files? = none)
    (s : σ) :
    ∃ millis, (w.convert c passes source declared?).run s =
      (.ok { d.abandoned with elapsedMillis := millis }, w.tick (w.tick s)) := by
  unfold convert carryOut
  rw [h]
  dsimp only
  rw [hfiles]
  exact ⟨_, rfl⟩

theorem run_convert_of_error {passes : List Pass} {source : String} {declared? : Option String}
    {e : Fault} (h : Draft.ofSource c passes source declared? = .error e) (s : σ) :
    (w.convert c passes source declared?).run s = (.error e, w.tick s) := by
  unfold convert
  rw [h]
  rfl

end Machine

namespace Draft

/-- The error that a failed run of the tools is. -/
def toolErrors (o? : Option Outcome) : List Diagnostic :=
  match o? with
  | none => []
  | some o =>
    if o.success then []
    else [⟨.buildError, "Toolchain run failed with " ++ toString o.errors.length ++ " errors"⟩]

variable (d : Draft) (c : Config) (writes : List (GeneratedFile × WriteResult)) (runs : List ToolRun)

theorem files_finish : (d.finish c writes runs).files = (writes.filter PersistReport.arrived).map Prod.fst := by
  have hpersisted : (d.persisted writes).files = (writes.filter PersistReport.arrived).map Prod.fst := by
    simp [persisted, PersistReport.ofWrites_eq]
  unfold finish
  split
  · exact hpersisted
  · exact hpersisted

theorem outcome_finish : (d.finish c writes runs).outcome? =
    if c.runsToolchain then some (.ofRuns c.requiredCoverage runs) else none := by
  unfold finish
  cases c.runsToolchain <;> rfl

theorem diagnostics_finish : (d.finish c writes runs).diagnostics =
    ⟨d.diagnostics.errors ++ writes.filterMap PersistReport.failure? ++
      toolErrors (d.finish c writes runs).outcome?, d.diagnostics.warnings⟩ := by
  have hpersisted : (d.persisted writes).diagnostics =
      ⟨d.diagnostics.errors ++ writes.filterMap PersistReport.failure?, d.diagnostics.warnings⟩ := by
    simp [persisted, PersistReport.ofWrites_eq, Diagnostics.extend]
  rw [outcome_finish]
  unfold finish
  cases c.runsToolchain with
  | false => simpa [toolErrors] using hpersisted
  | true =>
    simp only [if_true, ConversionResult.withOutcome, toolErrors]
    rw [hpersisted]
    split
    · simp
    · rfl

theorem filed_finish (h : d.diagnostics.Filed) : (d.finish c writes runs).diagnostics.Filed := by
  rw [diagnostics_finish]
  refine ⟨?_, h.warnings⟩
  intro e he
  rcases List.mem_append.1 he with he | he
  · rcases List.mem_append.1 he with he | he
    · exact h.errors e he
    · obtain ⟨⟨f, result⟩, -, hfailure⟩ := List.mem_filterMap.1 he
      cases result with
      | ok u => cases hfailure
      | error fault => cases hfailure; rfl
  · unfold toolErrors at he
    split at he
    · cases he
    · split at he
      · cases he
      · cases List.mem_singleton.1 he
        rfl

theorem countP_toolErrors (o? : Option Outcome) (kind : DiagnosticKind) :
    (toolErrors o?).countP (·.kind == kind) =
      if kind = .buildError ∧ o?.any (!·.success) = true then 1 else 0 := by
  cases o? with
  | none => simp [toolErrors]
  | some o => cases h : o.success <;> cases kind <;> simp [toolErrors, h]

theorem toolErrors_eq_nil_iff {o? : Option Outcome} :
    toolErrors o? = [] ↔ ∀ o, o? = some o → o.success = true := by
  cases o? with
  | none => simp [toolErrors]
  | some o => cases h : o.success <;> simp [toolErrors, h]

end Draft

namespace Machine

variable {σ : Type} (w : Machine (StateM σ)) (c : Config)

theorem settled_of_draft {d : Draft} {drafted : List GeneratedFile} (herrors : d.diagnostics.errors = [])
    (hfiled : d.diagnostics.Filed) (hpaths : (drafted.map (·.path)).Nodup) (s : σ) (millis : Nat) :
    Settled w c drafted s
      { d.finish c (w.writes c drafted s).1 (w.runs c (w.writes c drafted s).2).1 with
        elapsedMillis := millis }
      (w.tick (w.runs c (w.writes c drafted s).2).2) := by
  generalize hr : d.finish c (w.writes c drafted s).1 (w.runs c (w.writes c drafted s).2).1 = r
  have htried : (w.writes c drafted s).1.map Prod.fst = drafted := map_fst_writeFiles w _ _ s
  have hfiles : r.files = ((w.writes c drafted s).1.filter PersistReport.arrived).map Prod.fst :=
    hr ▸ Draft.files_finish d c _ _
  have hdiagnostics : r.diagnostics.errors =
      (w.writes c drafted s).1.filterMap PersistReport.failure? ++ Draft.toolErrors r.outcome? := by
    rw [← hr, Draft.diagnostics_finish, herrors, List.nil_append]
  have hcount {kind : DiagnosticKind} (hkind : kind.isError = true) :
      r.diagnostics.count kind =
        ((w.writes c drafted s).1.filterMap PersistReport.failure?).countP (·.kind == kind) +
          (Draft.toolErrors r.outcome?).countP (·.kind == kind) := by
    rw [(hr ▸ Draft.filed_finish d c _ _ hfiled : r.diagnostics.Filed).count_eq hkind, hdiagnostics,
      List.countP_append]
  exact {
    tried := htried
    files := hfiles
    paths := by
      have hsub : (r.files.map (·.path)).Sublist (drafted.map (·.path)) := by
        rw [hfiles]
        conv_rhs => rw [← htried]
        exact (List.filter_sublist.map _).map _
      exact hsub.nodup hpaths
    generationErrors := by
      rw [hcount rfl, PersistReport.countP_failure?, Draft.countP_toolErrors]
      simp
    outcome := hr ▸ Draft.outcome_finish d c _ _
    buildErrors := by
      rw [hcount rfl, PersistReport.countP_failure?, Draft.countP_toolErrors]
      simp
    success := by
      rw [← PersistReport.filterMap_failure?_eq_nil_iff, ← Draft.toolErrors_eq_nil_iff,
        ← List.append_eq_nil_iff]
      show (!r.diagnostics.hasErrors) = true ↔ _
      rw [← hdiagnostics]
      simp [Diagnostics.hasErrors]
    fileCount := rfl
    lineCount := by
      rw [List.foldr_map]
      rfl
    state := rfl }

end Machine

namespace Draft

variable {c : Config} {passes : List Pass} {source : String} {declared? : Option String} {f : Facts}

theorem ofSource_of_hasErrors (hf : Facts.analyze source declared? = .ok f)
    (h : f.diagnostics.hasErrors = true) :
    ofSource c passes source declared? = .ok (ofFacts f) := by
  simp [ofSource, hf, h, bind, Except.bind, pure, Except.pure]

theorem ofSource_of_generate_error (hf : Facts.analyze source declared? = .ok f)
    (h : f.diagnostics.hasErrors = false) {e : SynthesisError}
    (hg : ({ config := c } : Synthesizer).generate f = .error e) :
    ofSource c passes source declared? = .ok ((ofFacts f).record .generationError e.message) := by
  simp [ofSource, hf, h, hg, bind, Except.bind, pure, Except.pure]

theorem ofSource_of_generate (hf : Facts.analyze source declared? = .ok f)
    (h : f.diagnostics.hasErrors = false) {artifacts : List GeneratedFile}
    (hg : ({ config := c } : Synthesizer).generate f = .ok artifacts) :
    ofSource c passes source declared? = complete c passes f ((ofFacts f).noteMarkup f) artifacts := by
  simp [ofSource, hf, h, hg, bind, Except.bind]

theorem errors_noteMarkup (d : Draft) : (d.noteMarkup f).diagnostics.errors = d.diagnostics.errors := by
  unfold noteMarkup
  split
  · rfl
  · rfl

theorem filed_noteMarkup {d : Draft} (h : d.diagnostics.Filed) : (d.noteMarkup f).diagnostics.Filed := by
  unfold noteMarkup
  split
  · exact h
  · exact Diagnostics.Filed.push h ⟨.analysisWarning, _⟩

/-- How the files for facts without errors come about: the artifacts, a test beside each where
tests are asked for, and all of them improved where that is. -/
structure Made (c : Config) (passes : List Pass) (f : Facts)
    (artifacts tests drafted : List GeneratedFile) : Prop where
  generated : ({ config := c } : Synthesizer).generate f = .ok artifacts
  tested : if c.generateTests then TestSuite.generate f artifacts = .ok tests else tests = []
  beside : c.generateTests = true → List.Forall₂ (fun artifact test => test.kind = .test ∧
    test.path = (ArtifactLayout.ofName f.name f.tier).testPathFor artifact.kind) artifacts tests
  improved : if c.optimize then
      ∃ report, Pass.optimize passes (artifacts ++ tests) = .ok (drafted, report)
    else drafted = artifacts ++ tests
  order : drafted.map (·.path) = (artifacts ++ tests).map (·.path)
  paths : (drafted.map (·.path)).Nodup

/-- The tests that are drafted for the artifacts of a plan. -/
def testsFor (c : Config) (f : Facts) : List GeneratedFile :=
  if c.generateTests then (contextOf c f).tests else []

theorem tested_testsFor (c : Config) (f : Facts) :
    if c.generateTests then
      TestSuite.generate f (contextOf c f).artifacts = .ok (testsFor c f)
    else testsFor c f = [] := by
  unfold testsFor
  cases c.generateTests with
  | true => exact RenderContext.generate_tests_eq c f
  | false => rfl

theorem complete_artifacts (d : Draft) :
    complete c passes f d (contextOf c f).artifacts =
      if c.optimize then d.improve passes ((contextOf c f).artifacts ++ testsFor c f)
      else .ok { d with files? := some ((contextOf c f).artifacts ++ testsFor c f) } := by
  have htests : (if c.generateTests then TestSuite.generate f (contextOf c f).artifacts
      else .ok []) = .ok (testsFor c f) := by
    have htested := tested_testsFor c f
    split at htested
    · rw [if_pos ‹_›, htested]
    · rw [if_neg ‹_›, htested]
  unfold complete
  rw [htests]
  rfl

/-- Artifacts and tests have paths of their own. -/
theorem nodup_paths_made (hname : (contextOf c f).layout.Clean) :
    (((contextOf c f).artifacts ++ testsFor c f).map (·.path)).Nodup := by
  have hall := hname.nodup_paths (RenderContext.nodup_kinds (contextOf c f))
    (RenderContext.test_not_mem_kinds (contextOf c f))
  have hsub : (((contextOf c f).artifacts ++ testsFor c f).map (·.path)).Sublist
      ((contextOf c f).kinds.map (contextOf c f).layout.pathFor ++
        (contextOf c f).kinds.map (contextOf c f).layout.testPathFor) := by
    rw [List.map_append]
    refine List.Sublist.append ?_ ?_
    · rw [RenderContext.artifacts, List.map_map]
      exact List.Sublist.refl _
    · unfold testsFor
      split
      · rw [RenderContext.tests, List.map_map]
        exact List.Sublist.refl _
      · exact List.nil_sublist _
  exact hsub.nodup hall

theorem made_of_improved {drafted : List GeneratedFile}
    (hname : Text.isIdentifier (contextOf c f).layout.name.toList = true)
    (himproved : if c.optimize then
        ∃ report, Pass.optimize passes ((contextOf c f).artifacts ++ testsFor c f) =
          .ok (drafted, report)
      else drafted = (contextOf c f).artifacts ++ testsFor c f)
    (horder : drafted.map (·.path) =
      ((contextOf c f).artifacts ++ testsFor c f).map (·.path)) :
    Made c passes f (contextOf c f).artifacts (testsFor c f) drafted where
  generated := by
    rw [Synthesizer.generate_eq, if_pos hname]
  tested := tested_testsFor c f
  beside := by
    intro htests
    rw [testsFor, if_pos htests, RenderContext.artifacts, RenderContext.tests, List.forall₂_map_left_iff,
      List.forall₂_map_right_iff]
    exact List.forall₂_same.2 fun kind _ => ⟨rfl, rfl⟩
  improved := himproved
  order := horder
  paths := by
    rw [horder]
    exact nodup_paths_made (ArtifactLayout.clean_ofName hname)

theorem map_path_improved (passes : List Pass) (files : List GeneratedFile) :
    (files.map (Pass.improved passes)).map (·.path) = files.map (·.path) := by
  rw [List.map_map]
  exact List.map_congr_left fun g _ => (Pass.improves_improved passes g).path

theorem improve_of_optimize {d : Draft} {files drafted : List GeneratedFile} {report : OptimizationReport}
    (h : Pass.optimize passes files = .ok (drafted, report)) :
    d.improve passes files = .ok
      { d with
        diagnostics := d.diagnostics.extend report.diagnostics
        applied := report.applied
        files? := some drafted } := by
  unfold improve
  rw [h]
  rfl

/-- Improving adds no error and keeps the diagnostics filed. -/
theorem improve_cases (d : Draft) (passes : List Pass) (files : List GeneratedFile) :
    (∃ e, Pass.optimize passes files = .error e ∧ d.improve passes files = .error e) ∨
      ∃ d' report, Pass.optimize passes files = .ok (files.map (Pass.improved passes), report) ∧
        d.improve passes files = .ok d' ∧ d'.files? = some (files.map (Pass.improved passes)) ∧
        d'.diagnostics.errors = d.diagnostics.errors ∧
        (d.diagnostics.Filed → d'.diagnostics.Filed) := by
  by_cases h : Pass.AllReturn passes files
  · have hopt : Pass.optimize passes files = _ := Pass.optimizeFrom_of_allReturn h {}
    refine .inr ⟨_, _, hopt, improve_of_optimize hopt, rfl, ?_, ?_⟩
    · simp [Diagnostics.extend, OptimizationReport.after]
    · intro hd
      refine hd.extend ⟨?_, ?_⟩
      · simp [OptimizationReport.after]
      · intro e he
        simp only [OptimizationReport.after, List.nil_append, List.mem_flatMap, List.mem_filterMap,
          Pass.warningAt, Option.map_eq_some_iff] at he
        obtain ⟨g, -, step, -, reason, -, rfl⟩ := he
        rfl
  · have hopt : Pass.optimize passes files = _ := Pass.optimizeFrom_of_not_allReturn h {}
    refine .inl ⟨_, hopt, ?_⟩
    unfold improve
    rw [hopt]
    rfl

end Draft

namespace Machine

variable {σ : Type} (w : Machine (StateM σ)) (c : Config)

/-- What a conversion comes to, by how far it gets. -/
inductive Accounts (passes : List Pass) (source : String) (declared? : Option String) (s : σ) :
    Except Fault ConversionResult × σ → Prop
  | unread {e : Fault} (hf : Facts.analyze source declared? = .error e) :
      Accounts passes source declared? s (.error e, w.tick s)
  | abandoned {f : Facts} {r : ConversionResult} (hf : Facts.analyze source declared? = .ok f)
      (hwhy : f.diagnostics.hasErrors = true ∨ ∃ e, ({ config := c } : Synthesizer).generate f = .error e)
      (hfiles : r.files = []) (houtcome : r.outcome? = none) (hsuccess : r.success = false) :
      Accounts passes source declared? s (.ok r, w.tick (w.tick s))
  | cut {f : Facts} {artifacts tests : List GeneratedFile} {e : Fault}
      (hf : Facts.analyze source declared? = .ok f) (hclean : f.diagnostics.hasErrors = false)
      (hartifacts : ({ config := c } : Synthesizer).generate f = .ok artifacts)
      (htests : if c.generateTests then TestSuite.generate f artifacts = .ok tests else tests = [])
      (hoptimize : c.optimize = true) (hcut : Pass.optimize passes (artifacts ++ tests) = .error e) :
      Accounts passes source declared? s (.error e, w.tick s)
  | settled {f : Facts} {artifacts tests drafted : List GeneratedFile} {r : ConversionResult} {s' : σ}
      (hf : Facts.analyze source declared? = .ok f) (hclean : f.diagnostics.hasErrors = false)
      (hmade : Draft.Made c passes f artifacts tests drafted)
      (hsettled : Settled w c drafted (w.tick s) r s') :
      Accounts passes source declared? s (.ok r, s')

/-- Artifacts that were generated are settled, unless a pass over them and their tests cuts a
character. -/
theorem accounts_of_generate {passes : List Pass} {source : String} {declared? : Option String} {f : Facts}
    {artifacts : List GeneratedFile} (hf : Facts.analyze source declared? = .ok f)
    (hclean : f.diagnostics.hasErrors = false)
    (hg : ({ config := c } : Synthesizer).generate f = .ok artifacts) (s : σ) :
    Accounts w c passes source declared? s ((w.convert c passes source declared?).run s) := by
  obtain ⟨hname, rfl⟩ := Synthesizer.generate_eq_ok_iff.1 hg
  have hdraft : Draft.ofSource c passes source declared? = _ :=
    (Draft.ofSource_of_generate hf hclean hg).trans (Draft.complete_artifacts _)
  have hstart : ((Draft.ofFacts f).noteMarkup f).diagnostics.errors = [] := by
    rw [Draft.errors_noteMarkup]
    simpa [Diagnostics.hasErrors, Draft.ofFacts] using hclean
  have hfiled : ((Draft.ofFacts f).noteMarkup f).diagnostics.Filed :=
    Draft.filed_noteMarkup (d := Draft.ofFacts f) (Facts.filed_of_analyze hf)
  by_cases hoptimize : c.optimize = true
  · rw [if_pos hoptimize] at hdraft
    rcases Draft.improve_cases ((Draft.ofFacts f).noteMarkup f) passes
        ((contextOf c f).artifacts ++ Draft.testsFor c f) with
      ⟨e, hcut, himprove⟩ | ⟨d, report, hopt, himprove, hfiles, herrors, hkeeps⟩
    · rw [run_convert_of_error w c (hdraft.trans himprove)]
      exact .cut hf hclean hg (Draft.tested_testsFor c f) hoptimize hcut
    · obtain ⟨millis, hrun⟩ := run_convert_of_draft w c (hdraft.trans himprove) hfiles s
      rw [hrun]
      have hmade := Draft.made_of_improved hname
        (by rw [if_pos hoptimize]; exact ⟨report, hopt⟩) (Draft.map_path_improved passes _)
      exact .settled hf hclean hmade
        (settled_of_draft w c (herrors.trans hstart) (hkeeps hfiled) hmade.paths _ millis)
  · rw [if_neg hoptimize] at hdraft
    obtain ⟨millis, hrun⟩ := run_convert_of_draft w c hdraft rfl s
    rw [hrun]
    have hmade : Draft.Made c passes f _ _ _ :=
      Draft.made_of_improved hname (by rw [if_neg hoptimize]) rfl
    exact .settled hf hclean hmade (settled_of_draft w c hstart hfiled hmade.paths _ millis)

/-- Every conversion comes to one of four ends, whatever the machine does. -/
theorem convert_accounts (passes : List Pass) (source : String) (declared? : Option String) (s : σ) :
    Accounts w c passes source declared? s ((w.convert c passes source declared?).run s) := by
  cases hf : Facts.analyze source declared? with
  | error e =>
    have hdraft : Draft.ofSource c passes source declared? = .error e := by
      simp [Draft.ofSource, hf, bind, Except.bind]
    rw [run_convert_of_error w c hdraft]
    exact .unread hf
  | ok f =>
    by_cases herrors : f.diagnostics.hasErrors = true
    · have hdraft : Draft.ofSource c passes source declared? = _ := Draft.ofSource_of_hasErrors hf herrors
      obtain ⟨millis, hrun⟩ := run_convert_of_abandoned w c hdraft rfl s
      rw [hrun]
      refine .abandoned hf (.inl herrors) rfl rfl ?_
      show (!f.diagnostics.hasErrors) = false
      rw [herrors]
      rfl
    · have hclean : f.diagnostics.hasErrors = false := Bool.eq_false_iff.2 herrors
      cases hg : ({ config := c } : Synthesizer).generate f with
      | error e =>
        have hdraft : Draft.ofSource c passes source declared? = _ :=
          Draft.ofSource_of_generate_error hf hclean hg
        obtain ⟨millis, hrun⟩ := run_convert_of_abandoned w c hdraft rfl s
        rw [hrun]
        refine .abandoned hf (.inr ⟨e, hg⟩) rfl rfl ?_
        simp [ConversionResult.success, Draft.abandoned, Draft.record, Diagnostics.record,
          Diagnostics.push, Diagnostics.hasErrors, DiagnosticKind.isError]
      | ok artifacts => exact accounts_of_generate w c hf hclean hg s

/-- Every write arrives, every command ends with code zero and no output. -/
def obliging : Machine (StateM Unit) where
  read _ := pure (.ok .empty)
  write _ _ := pure (.ok ())
  makeDirectories _ := pure (.ok ())
  run _ := pure (.ok ⟨some 0, "", 0⟩)
  now := pure 0

/-- An entry that cannot be cut leaves no result, even where all writes would arrive. -/
theorem colonsFirst_not_converted :
    Accounts obliging {} Pass.builtIn "const A = (\x7b ::é:b \x7d) => <p/>;\n" none ()
        ((obliging.convert {} Pass.builtIn "const A = (\x7b ::é:b \x7d) => <p/>;\n" none).run ()) ∧
      ¬ ∃ r s, (obliging.convert {} Pass.builtIn "const A = (\x7b ::é:b \x7d) => <p/>;\n" none).run () =
        (.ok r, s) := by
  have haccounts := convert_accounts obliging {} Pass.builtIn "const A = (\x7b ::é:b \x7d) => <p/>;\n" none ()
  refine ⟨haccounts, ?_⟩
  rintro ⟨r, s, hrun⟩
  have hanalyze := (Facts.analyze_eq_error_iff "const A = (\x7b ::é:b \x7d) => <p/>;\n" none).2
    ⟨_, Facts.mem_entriesRead_colonsFirst, Facts.cutInside_colonsFirst⟩
  rw [hrun] at haccounts
  -- Both ends with a result begin with facts that were read.
  cases haccounts with
  | abandoned hf hwhy => rw [hanalyze] at hf; cases hf
  | settled hf hclean hmade => rw [hanalyze] at hf; cases hf

end Machine

end Recast
